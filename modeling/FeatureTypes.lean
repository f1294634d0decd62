import FeatureTypes.Proofs.Assignability.Boxed
import FeatureTypes.Proofs.Assignability.Collecting
import FeatureTypes.Proofs.Assignability.Constraint
import FeatureTypes.Proofs.Assignability.Instantiation
import FeatureTypes.Proofs.Assignability.Union
import FeatureTypes.Proofs.Checker.Ancestry
import FeatureTypes.Proofs.Checker.Dropping
import FeatureTypes.Proofs.Checker.Enclosing
import FeatureTypes.Proofs.Checker.Rewriting
import FeatureTypes.Proofs.Memo.Transparency
import FeatureTypes.Proofs.Renumbering.Independence
import FeatureTypes.Proofs.Store.Arisen
import FeatureTypes.Proofs.Substitution.Closing
import FeatureTypes.Proofs.Substitution.Commutation
import FeatureTypes.Proofs.Substitution.Mirror
import FeatureTypes.Proofs.Substitution.Splicing
import FeatureTypes.Proofs.Substitution.Surface
import FeatureTypes.Proofs.Substitution.Wholesale
import FeatureTypes.Proofs.SymbolTable
import FeatureTypes.Proofs.Ty.Legibility
import FeatureTypes.Proofs.Validation.Choices
import FeatureTypes.Proofs.Validation.Reports
import FeatureTypes.Proofs.Validation.Termination
