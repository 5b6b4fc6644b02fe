/-!
# Names of Exported Files

A configuration is exported under a name that is made from the name of its
project: in lower case, and with a low line for each character that is neither
an ASCII letter nor a digit. So the name holds no separator and no point but the
one of its ending, whatever the project is called.

Two characters outside ASCII have an ASCII letter in their lower case: the
Kelvin sign, and the capital i with a dot, whose dot becomes a character of its
own. All other characters outside ASCII have one in lower case that is outside
ASCII as well, and need not be told apart.

## Main definitions

* `lowered`: A character in lower case.
* `exportFilename`: The name of an exported file.
-/

namespace SimStudio

/-- A character in lower case, as far as ASCII is concerned. -/
def lowered (c : Char) : List Char :=
  if c = '\u0130' then ['i', '\u0307']
  else if c = '\u212a' then ['k']
  else [c.toLower]

/-- Whether a character may stand in the name of an exported file. -/
def isPortable (c : Char) : Bool := ('a' ≤ c && c ≤ 'z') || c.isDigit

/-- The name of a project as a part of a file name. -/
def exportStem (name : String) : String :=
  String.ofList ((name.toList.flatMap lowered).map fun c => if isPortable c then c else '_')

/-- The name of an exported file. -/
def exportFilename (name : String) : String := exportStem name ++ "_config.yaml"

end SimStudio
