import Cpex.Spec.RawCredentials
import Cpex.Spec.RouteDispatch
import Cpex.Spec.Groups
import Cpex.Spec.HiddenHeaders
import Cpex.Spec.Interpolation
import Cpex.Spec.Schedules
import Cpex.Spec.Narrowing
import Cpex.Spec.ParallelModes
import Cpex.Spec.LostUpdates
import Cpex.Spec.StaleRoutes
import Cpex.Spec.JsonMerge
import Cpex.Spec.Projections
import Cpex.Spec.HookRouting
import Cpex.Spec.DispatchPlans
import Cpex.Spec.RestrictionLaws
import Cpex.Spec.GrantedAttributes
import Cpex.Spec.AppendOnly
import Cpex.Spec.DelegationChains
import Cpex.Spec.Overrides
import Cpex.Spec.RuleOrder
import Cpex.Spec.RequireRules
import Cpex.Spec.PredicateRoundtrip
import Cpex.Spec.LocalStates
import Cpex.Spec.PdpDocuments
import Cpex.Spec.ModelGlobs
import Cpex.Spec.ArgumentLists
import Cpex.Spec.MapOrder
import Cpex.Spec.Worker
