import Typemap.Diagnostic
import Typemap.Failure.Json
import Typemap.Proofs.Mapping.Quoting
import Typemap.Scope.Json
import Typemap.Settings.Json
import Typemap.Proofs.Mapping.Resolution
import Typemap.Mapping.WellFormed
import Typemap.Proofs.Mapping.WellFormed
import Typemap.Proofs.Token.Faults
import Typemap.Proofs.Expression.Refusals
import Typemap.Proofs.Expression.Paths
import Typemap.Failure.Blame
import Typemap.Proofs.Token.Places
import Typemap.Proofs.Expression.Blame
import Typemap.Proofs.Failure.Blame
import Typemap.Proofs.Token.Padding
import Typemap.Expression.Moved
import Typemap.Proofs.Expression.Moved
import Typemap.Proofs.Mapping.Padding
import Typemap.Proofs.Json.Read
import Typemap.Proofs.Json.Loading
import Typemap.Proofs.Mapping.Json
import Typemap.Proofs.Mapping.Package
import Typemap.Proofs.Mapping.Substitution
import Typemap.Proofs.Expression.Ends
import Typemap.Expression.Nesting
import Typemap.Proofs.Expression.Nesting
import Typemap.Expression.Viable
import Typemap.Proofs.Expression.Completion
import Typemap.Proofs.Expression.Repeats
import Typemap.Proofs.Failure.Viable
import Typemap.Proofs.Mapping.Parameters
import Typemap.Proofs.Token.Earliest
import Typemap.Proofs.Token.Resumption
import Typemap.Proofs.Expression.Stop
import Typemap.Proofs.Token.Bare
import Typemap.Proofs.Mapping.Rewriting
import Typemap.Proofs.Diagnostic
import Typemap.Proofs.Name.Grammar
