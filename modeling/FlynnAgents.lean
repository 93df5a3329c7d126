import FlynnAgents.Reservations
import FlynnAgents.Publication
import FlynnAgents.GuardLaws
import FlynnAgents.ClockLaws
import FlynnAgents.Reopening
import FlynnAgents.OutputCap
import FlynnAgents.BreachLaws
import FlynnAgents.EffectLaws
import FlynnAgents.UsageLaws
import FlynnAgents.RecoveryLaws
import FlynnAgents.History
import FlynnAgents.Durability
import FlynnAgents.Authority
import FlynnAgents.StepTrace
import FlynnAgents.SessionRecord
import FlynnAgents.SessionBudget
import FlynnAgents.Corrections
import FlynnAgents.Deadline
import FlynnAgents.Context
import FlynnAgents.Fetch
import FlynnAgents.Worker
import FlynnAgents.DeepSeekLaws
import FlynnAgents.Completion
import FlynnAgents.OutputBound
import FlynnAgents.UsageAccounts
import FlynnAgents.Observations
import FlynnAgents.Fingerprint
import FlynnAgents.Configuration
import FlynnAgents.OwnershipLaws
import FlynnAgents.Digests
import FlynnAgents.Ledger
import FlynnAgents.Exchange
import FlynnAgents.Progress
import FlynnAgents.Structured
import FlynnAgents.Readers
import FlynnAgents.Inspection
import FlynnAgents.Resumption
import FlynnAgents.Wire
