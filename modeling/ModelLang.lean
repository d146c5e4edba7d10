import ModelLang.Model
import ModelLang.Proofs.Order.Assignability
import ModelLang.Proofs.Order.Bounds
import ModelLang.Proofs.Order.Conjunction
import ModelLang.Proofs.Order.Spelling
import ModelLang.Proofs.TypeText
import ModelLang.Proofs.Occurrences
import ModelLang.Proofs.Traversal
import ModelLang.Proofs.Overload.Selection
import ModelLang.Proofs.Overload.Copies
import ModelLang.Proofs.Overload.Agreement
import ModelLang.Proofs.Overload.Types
import ModelLang.Proofs.Declaration.InPlace
import ModelLang.Proofs.Declaration.Order
import ModelLang.Proofs.Declaration.Strictness
import ModelLang.Proofs.Resolution.Adequacy
import ModelLang.Proofs.Resolution.Completeness
import ModelLang.Proofs.Resolution.Parts
import ModelLang.Proofs.Resolution.Soundness
import ModelLang.Proofs.Resolution.Once
import ModelLang.Proofs.Bare
import ModelLang.Proofs.Resolution.Annotation
import ModelLang.Proofs.Resolution.Origins
import ModelLang.Proofs.Resolution.Receivers
import ModelLang.Proofs.Renaming
import ModelLang.Proofs.Resolution.Recursion
import ModelLang.Proofs.Resolution.Renamed
import ModelLang.Proofs.Resolution.Replay
import ModelLang.Proofs.Resolution.Reordering
import ModelLang.Proofs.Resolution.Extension
import ModelLang.Proofs.Resolution.Relocation
import ModelLang.Proofs.Resolution.NullaryCall
import ModelLang.Proofs.Resolution.Failure
import ModelLang.Proofs.Resolution.Pass
import ModelLang.Proofs.Resolution.Termination
import ModelLang.Proofs.Resolution.Sharing
import ModelLang.Proofs.Report
import ModelLang.Proofs.TypeListing
import ModelLang.Proofs.TypeListing.Occurrences
import ModelLang.Proofs.Model.Build
import ModelLang.Proofs.Model.Settings
import ModelLang.Proofs.Model.LifeCycle
