import DiceTables.Main
import DiceTables.Proofs.DiceValue
import DiceTables.Proofs.Arithmetic
import DiceTables.Proofs.Domain
import DiceTables.Proofs.Selection
import DiceTables.Proofs.Building
import DiceTables.Proofs.Coverage
import DiceTables.Proofs.Rolling
import DiceTables.Proofs.Replay
import DiceTables.Proofs.Settled
import DiceTables.Proofs.Reporting
import DiceTables.Proofs.Isolation
import DiceTables.Proofs.Draft
import DiceTables.Proofs.Reading
import DiceTables.Proofs.RoundTrip
import DiceTables.Proofs.HeaderNotation
import DiceTables.Proofs.Locating
import DiceTables.Proofs.TableText
import DiceTables.Proofs.Warnings
import DiceTables.Proofs.DiceAsked
import DiceTables.Proofs.Routing
import DiceTables.Proofs.Odds
import DiceTables.Proofs.Saturation
import DiceTables.Proofs.InlineText
import DiceTables.Proofs.Bullets
import DiceTables.Proofs.Precedence
import DiceTables.Proofs.Rerolling
import DiceTables.Proofs.Blocks
import DiceTables.Proofs.NormalHeader
import DiceTables.Proofs.KeptDice
import DiceTables.Proofs.RollList
import DiceTables.Proofs.Refusals
import DiceTables.Proofs.HigherLimits
import DiceTables.Proofs.FanOut
import DiceTables.Proofs.Forest
import DiceTables.Proofs.TextLinks
import DiceTables.Proofs.Settings
import DiceTables.Proofs.NoisyLines
import DiceTables.Proofs.Triggers
import DiceTables.Proofs.OneLine
import DiceTables.Proofs.LineBreaks
import DiceTables.Proofs.WorkLog
import DiceTables.Proofs.Items
