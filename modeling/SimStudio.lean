import SimStudio.Configuration.Writer
import SimStudio.Main
import SimStudio.Proofs.Configuration.Hazards
import SimStudio.Proofs.Configuration.Numbering
import SimStudio.Proofs.Project.Stored
import SimStudio.Proofs.Text.Session
import SimStudio.Proofs.Text.Editing
import SimStudio.Proofs.Store.Trees
import SimStudio.Proofs.Store.Naming
import SimStudio.Proofs.Save.Landing
import SimStudio.Proofs.Save.Downloading
import SimStudio.Proofs.Save.Lending
import SimStudio.Proofs.Save.Strategies
import SimStudio.Proofs.Configuration.SlotOrder
import SimStudio.Proofs.Configuration.PromptValues
import SimStudio.Proofs.Text.Bytes
import SimStudio.Proofs.Project.Commuting
import SimStudio.Proofs.Project.RoleIds
import SimStudio.Proofs.Project.References
import SimStudio.Proofs.Configuration.Keys
import SimStudio.Proofs.Configuration.Writing
import SimStudio.Proofs.Save.ExportNames
