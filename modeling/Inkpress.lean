import Inkpress.Main
import Inkpress.Site.Handle
import Inkpress.Site.Start
import Inkpress.Zip.Writer
import Inkpress.Proofs.Store.Volume
import Inkpress.Proofs.Store.Operation
import Inkpress.Proofs.Store.Outcome
import Inkpress.Proofs.Store.Reading
import Inkpress.Proofs.Store.Shelf
import Inkpress.Proofs.Store.History
import Inkpress.Proofs.Document.Staging
import Inkpress.Proofs.Document.Pieces
import Inkpress.Proofs.Ingestion
import Inkpress.Proofs.Store.Integrity
import Inkpress.Proofs.Store.Interleaving
import Inkpress.Proofs.Document.Numbering
import Inkpress.Proofs.Site.Segment
import Inkpress.Proofs.Site.Picture
import Inkpress.Proofs.Document.Draws
import Inkpress.Proofs.Document.Files
import Inkpress.Proofs.Document.Renaming
import Inkpress.Proofs.Directory
import Inkpress.Proofs.Separation
import Inkpress.Proofs.Counts
import Inkpress.Proofs.Body.Pictures
import Inkpress.Proofs.Body.Truncation
import Inkpress.Proofs.Package.Elements
import Inkpress.Proofs.Store.Assembly
import Inkpress.Proofs.Store.Cascade
import Inkpress.Proofs.Body.Encoding
import Inkpress.Proofs.Body.Indices
import Inkpress.Proofs.Body.Spelling
import Inkpress.Proofs.Package.Declarations
import Inkpress.Proofs.Body.Sections
import Inkpress.Proofs.Package.Resolution
import Inkpress.Proofs.Site.Lookup
import Inkpress.Proofs.Site.Tally
import Inkpress.Proofs.Settings.Layering
import Inkpress.Proofs.Command.Author
import Inkpress.Proofs.Site.Greeting
import Inkpress.Proofs.Body.Bounds
