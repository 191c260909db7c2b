import DiceTables.Limits
import DiceTables.Numeral
import DiceTables.Text.Blank
import DiceTables.Text.Quoted

/-!
Settings. Every setting has a key and a default that holds where the key has no value. The limits
are read first, each from a numeral that may have blanks around it and a plus sign in front; then
they are checked, since dice need at least one die and two sides; the other settings come last.
-/

namespace DiceTables

/-- Settings for answering requests. -/
structure Config where
  /-- Bounds on the work of one request. -/
  limits : Limits := {}
  /-- Last line of every report. -/
  signature : String := "*Beep boop, I roll tables so you don't have to.*"
  /-- Whether a report ends with the log of everything that was done. -/
  showWorkLog : Bool := false
deriving DecidableEq, Repr

/-- Why settings cannot be used. -/
inductive ConfigError where
  /-- The value of this key is unusable. -/
  | invalid (key value : String)
deriving DecidableEq, Repr

/-- What a person is told. -/
def ConfigError.message : ConfigError → String
  | invalid key value => "invalid value for " ++ key ++ ": " ++ Text.quote value

namespace Config

/-! ### Keys -/

/-- Key of the most dice in one group. -/
def maxDiceKey : String := "ROLLONE_MAX_DICE"

/-- Key of the most sides of a die. -/
def maxSidesKey : String := "ROLLONE_MAX_SIDES"

/-- Key of the most groups of dice in one expression. -/
def maxTermsKey : String := "ROLLONE_MAX_TERMS"

/-- Key of the depth to which tables may be nested. -/
def maxDepthKey : String := "ROLLONE_MAX_DEPTH"

/-- Key of the most comments or links that one step follows. -/
def maxFanOutKey : String := "ROLLONE_MAX_FAN_OUT"

/-- Key of the last line of every report. -/
def signatureKey : String := "ROLLONE_SIGNATURE"

/-- Key of whether a report ends with the work log. -/
def showWorkKey : String := "ROLLONE_SHOW_WORK"

/-- Every key there is. -/
def keys : List String :=
  [maxDiceKey, maxSidesKey, maxTermsKey, maxDepthKey, maxFanOutKey, signatureKey, showWorkKey]

/-! ### Values -/

/-- A number up to a bound, with an optional plus sign. -/
def number? (greatest : Nat) (s : List Char) : Option Nat :=
  match s with
  | '+' :: digits => numeralUpTo? greatest digits
  | digits => numeralUpTo? greatest digits

/-- A truth value, spelled out. -/
def bool? (s : List Char) : Option Bool :=
  if s = "true".toList then some true
  else if s = "false".toList then some false
  else none

/-- The value of a key without the blanks around it, or the default where the key has none. -/
def read {α : Type} (lookup : String → Option String) (key : String)
    (value? : List Char → Option α) (default : α) : Except ConfigError α :=
  match lookup key with
  | none => .ok default
  | some value =>
    match value? (Text.trim value.toList) with
    | some x => .ok x
    | none => .error (.invalid key value)

/-- Settings from the values of their keys. -/
def ofLookup (lookup : String → Option String) : Except ConfigError Config := do
  let defaults : Config := {}
  let word := number? 65535
  let count := number? 18446744073709551615
  let maxDice ← read lookup maxDiceKey word defaults.limits.maxDice.toNat
  let maxSides ← read lookup maxSidesKey word defaults.limits.maxSides.toNat
  let maxTerms ← read lookup maxTermsKey count defaults.limits.maxTerms
  let maxDepth ← read lookup maxDepthKey count defaults.limits.maxDepth
  let maxFanOut ← read lookup maxFanOutKey count defaults.limits.maxFanOut
  if maxDice = 0 then throw (.invalid maxDiceKey "0")
  if maxSides < 2 then throw (.invalid maxSidesKey (toString maxSides))
  let signature := (lookup signatureKey).getD defaults.signature
  let showWorkLog ← read lookup showWorkKey bool? defaults.showWorkLog
  let limits := { maxDice := maxDice.toUInt16, maxSides := maxSides.toUInt16,
                  maxTerms, maxDepth, maxFanOut }
  return { limits, signature, showWorkLog }

end Config

end DiceTables
