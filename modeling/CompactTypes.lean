import CompactTypes.Main
import CompactTypes.Proofs.Conversion.Agreement
import CompactTypes.Proofs.Conversion.Enumerators
import CompactTypes.Proofs.Conversion.Numbering
import CompactTypes.Proofs.Conversion.Operations
import CompactTypes.Proofs.Conversion.Symbols
import CompactTypes.Proofs.Conversion.Types
import CompactTypes.Proofs.Ctf.Acceptance
import CompactTypes.Proofs.Dwarf.Attachment
import CompactTypes.Proofs.Dwarf.Extension
import CompactTypes.Proofs.Dwarf.Links
import CompactTypes.Proofs.Dwarf.Nesting
import CompactTypes.Proofs.Dwarf.Origins
import CompactTypes.Proofs.Dwarf.Pending
import CompactTypes.Proofs.Dwarf.Units
import CompactTypes.Proofs.Program
import CompactTypes.Proofs.Resolution.Frame
import CompactTypes.Proofs.Resolution.Slots
import CompactTypes.Proofs.Resolution.Tables
