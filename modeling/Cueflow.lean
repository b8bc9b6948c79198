import Cueflow.Inspect
import Cueflow.Main
import Cueflow.Player.Show
import Cueflow.Rehearsal.Build
import Cueflow.SettingsText.Writer
import Cueflow.Proofs.Journal
import Cueflow.Proofs.Schedule.Recording
import Cueflow.Proofs.Choice.Places
import Cueflow.Proofs.Choice.Recording
import Cueflow.Proofs.Choice.Sessions
import Cueflow.Proofs.Flow.CleanUp
import Cueflow.Proofs.Flow.HandOver
import Cueflow.Proofs.Number.Clock
import Cueflow.Proofs.Number.BinaryClock
import Cueflow.Proofs.Schedule.Exits
import Cueflow.Proofs.Schedule.Ongoing
import Cueflow.Proofs.Schedule.Punctuality
import Cueflow.Proofs.Schedule.Updates
import Cueflow.Proofs.Choice.Priority
import Cueflow.Proofs.Number.Single
import Cueflow.Proofs.Number.Width
import Cueflow.Proofs.Schedule.Standing
import Cueflow.Proofs.Player.Scenes
import Cueflow.Proofs.Player.Patrolling
import Cueflow.Proofs.Player.Stages
import Cueflow.Proofs.Player.Outcome
import Cueflow.Proofs.Flow.Resolver
import Cueflow.Proofs.Schedule.Aiming
import Cueflow.Proofs.Choice.Settling
import Cueflow.Proofs.Flow.Resolution
import Cueflow.Proofs.Choice.Nodes
import Cueflow.Proofs.Choice.Conduct
import Cueflow.Proofs.Choice.Timers
import Cueflow.Proofs.World.Statuses
import Cueflow.Proofs.Flow.Conduct
import Cueflow.Proofs.Flow.Bookkeeping
import Cueflow.Proofs.Flow.Dependencies
import Cueflow.Proofs.Choice.Flattening
import Cueflow.Proofs.Schedule.Effect
import Cueflow.Proofs.Flow.Reaction
import Cueflow.Proofs.Number.Patterns
import Cueflow.Proofs.Number.Amount
import Cueflow.Proofs.Player.Backlog
import Cueflow.Proofs.Player.Conservation
import Cueflow.Proofs.Schedule.Completion
import Cueflow.Proofs.Schedule.Spans
import Cueflow.Proofs.Choice.Countdown
import Cueflow.Proofs.Schedule.Validation
import Cueflow.Proofs.Number.Scaling
import Cueflow.Proofs.World.Drawing
import Cueflow.Proofs.Choice.Words
import Cueflow.Proofs.Flow.Descent
import Cueflow.Proofs.World.Chronicle
import Cueflow.Proofs.Schedule.Shape
import Cueflow.Proofs.Number.Gaps
import Cueflow.Proofs.Flow.Stalling
