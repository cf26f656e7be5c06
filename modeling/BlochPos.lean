import BlochPos.Finality.FoldInvariants
import BlochPos.Finality.AccountableSafety
import BlochPos.ForkChoice.Head
import BlochPos.Slashing.Correlation
import BlochPos.Transition.SlashExposure
import BlochPos.Transition.ExitChurn
import BlochPos.Transition.Equivocation
import BlochPos.Transition.OwnCheckpoints
import BlochPos.Finality.Leak
import BlochPos.Delegation.Cap
import BlochPos.Committees.Cohort
import BlochPos.Committees.RevealChain
import BlochPos.StateRoot.EutxoTree
import BlochPos.Transition.Issuance
import BlochPos.Transition.Identities
import BlochPos.Transition.FundedLifecycle
import BlochPos.Transition.KesTrees
import BlochPos.L2.Escrow
import BlochPos.L2.ReleaseLimit
import BlochPos.L2.Chain
import BlochPos.Transition.Credentials
import BlochPos.Transition.Spending
import BlochPos.Transition.Withdrawal
import BlochPos.Transition.WitnessTable
import BlochPos.Transition.Precheck
import BlochPos.Ustav.Authorised
import BlochPos.Ustav.PoolRestore
import BlochPos.Ustav.SwapPrice
import BlochPos.BaseFee
import BlochPos.Transition.Preflight
import BlochPos.L2.ClaimFinality
import BlochPos.Finality.Certificate
import BlochPos.Coherence.NullifierSet
import BlochPos.Pow.Mining
import BlochPos.ForkChoice.Messages
import BlochPos.Transition.Leaving
