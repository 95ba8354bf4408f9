import MockDialect.Command.Run
import MockDialect.Main
import MockDialect.Proofs.Conversion.Carets
import MockDialect.Proofs.Conversion.Conventions
import MockDialect.Proofs.Conversion.Folding
import MockDialect.Proofs.Conversion.Offered
import MockDialect.Proofs.Conversion.OrderScope
import MockDialect.Proofs.Conversion.OrderedHeads
import MockDialect.Proofs.Conversion.Ordering
import MockDialect.Proofs.Conversion.Pointing
import MockDialect.Proofs.Conversion.Staleness
import MockDialect.Proofs.Conversion.ThrownForms
import MockDialect.Proofs.Conversion.Toggling
import MockDialect.Proofs.Creation.FieldNames
import MockDialect.Proofs.Creation.Fields
import MockDialect.Proofs.Creation.OwnFields
import MockDialect.Proofs.Settings.Overloads
import MockDialect.Proofs.Edit.Conflicts
import MockDialect.Proofs.Settings.LastCalls
import MockDialect.Proofs.Source.Importing
import MockDialect.Proofs.Source.Statements
import MockDialect.Proofs.Text.Tiling
import MockDialect.Proofs.Recognition.Checking
import MockDialect.Proofs.Conversion.Imported
import MockDialect.Proofs.Conversion.Innermost
import MockDialect.Proofs.Conversion.MovedArguments
import MockDialect.Proofs.Stubbing.Detection
import MockDialect.Proofs.Stubbing.EntryPlace
import MockDialect.Proofs.Creation.Removal
