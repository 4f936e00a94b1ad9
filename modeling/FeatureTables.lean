import FeatureTables.Main
import FeatureTables.Text.CharTable
import FeatureTables.Proofs.Conversion.Appending
import FeatureTables.Proofs.Conversion.Attachment
import FeatureTables.Proofs.Conversion.Completeness
import FeatureTables.Proofs.Conversion.Emission
import FeatureTables.Proofs.Conversion.Exclusion
import FeatureTables.Proofs.Conversion.Minting
import FeatureTables.Proofs.Conversion.Parents
import FeatureTables.Proofs.Conversion.Presence
import FeatureTables.Proofs.Conversion.References
import FeatureTables.Proofs.Conversion.Refusal
import FeatureTables.Proofs.Conversion.Retention
import FeatureTables.Proofs.Files
import FeatureTables.Proofs.Json.Reading
import FeatureTables.Proofs.Layout.Coverage
import FeatureTables.Proofs.Layout.Leading
import FeatureTables.Proofs.Model.Data
import FeatureTables.Proofs.Model.File
import FeatureTables.Proofs.Population.Refusal
import FeatureTables.Proofs.Schema.Closure
import FeatureTables.Proofs.Schema.Exploration
import FeatureTables.Proofs.Schema.Reading
import FeatureTables.Proofs.Schema.Search
import FeatureTables.Proofs.Text.Utf8
import FeatureTables.Proofs.Conversion.Caching
import FeatureTables.Proofs.Conversion.Joining
import FeatureTables.Proofs.Conversion.Legibility
import FeatureTables.Proofs.Schema.Kinds
import FeatureTables.Proofs.Typing.Ending
import FeatureTables.Proofs.Schema.Bounds
import FeatureTables.Proofs.Layout.Naming
import FeatureTables.Proofs.Location.Path
import FeatureTables.Proofs.Conversion.Readings
import FeatureTables.Proofs.Layout.Budget
import FeatureTables.Proofs.Layout.Rebuilding
import FeatureTables.Proofs.Geometry.Decoding
import FeatureTables.Proofs.Conversion.Metadata
import FeatureTables.Proofs.Typing.Binding
import FeatureTables.Proofs.Schema.Registration
import FeatureTables.Proofs.Schema.Adoption
import FeatureTables.Proofs.Schema.Attributes
import FeatureTables.Proofs.Xml.Tags
import FeatureTables.Proofs.Xml.Search
import FeatureTables.Proofs.Xml.Completeness
import FeatureTables.Proofs.Sql.Insertion
import FeatureTables.Proofs.Table.Union
import FeatureTables.Proofs.Location.Redirection
import FeatureTables.Proofs.Conversion.Precedence
import FeatureTables.Proofs.Conversion.Reimport
import FeatureTables.Proofs.Table.Naming
import FeatureTables.Proofs.Model.LinksBack
import FeatureTables.Proofs.Layout.Relaxing
import FeatureTables.Proofs.Conversion.Rebasing
