import RuleInduction.Decimal
import RuleInduction.Term

namespace RuleInduction

inductive LineError where
  | malformedFact (line : String) (offset : Nat)
  | malformedMode (line : String) (offset : Nat)
  | unknownSymbol (line : String) (symbol : Char)
  | emptyArgument (line : String) (position : Nat)
  | invalidWeight (line : String) (weight : String)
  deriving DecidableEq, Repr

inductive SetupError where
  | missingTarget
  | noTargetModes (target : Predicate)
  | inconsistentModes (predicate : Predicate)
  | limitTooLow (setting value : String) (minimum : Nat)
  | fractionOutOfRange (setting : String) (value : Float)
  | noExamples
  | foreignExample (shown : String) (target : Predicate)
  | exampleArity (shown : String) (expected actual : Nat)
  | unreadable (path cause : String)
  | unparsable (path reason : String)
  | unwritable (path cause : String)
  deriving Repr

inductive Error where
  | line (e : LineError)
  | setup (e : SetupError)
  | notFitted
  deriving Repr

namespace LineError

def message : LineError → String
  | malformedFact line offset => s!"malformed fact \"{line}\" at offset {offset}"
  | malformedMode line offset => s!"malformed mode \"{line}\" at offset {offset}"
  | unknownSymbol line symbol => s!"unknown mode symbol '{symbol}' in \"{line}\""
  | emptyArgument line position => s!"empty argument at position {position} in \"{line}\""
  | invalidWeight line weight => s!"invalid weight \"{weight}\" in \"{line}\""

def code : LineError → String
  | malformedFact .. => "grammar::malformed_fact"
  | malformedMode .. => "grammar::malformed_mode"
  | unknownSymbol .. => "grammar::unknown_mode_symbol"
  | emptyArgument .. => "grammar::empty_argument"
  | invalidWeight .. => "grammar::invalid_weight"

def help : LineError → String
  | malformedFact .. =>
    "Facts and examples are written `name(arg1,arg2,...).` or `weight::name(arg1,arg2,...).` " ++
    "with identifiers made of letters, digits and underscores. Check for a missing `.` or " ++
    "parenthesis."
  | malformedMode .. =>
    "Modes are written `name(+type,-type,...)` where every argument is a mode symbol immediately " ++
    "followed by a type name. The trailing `.` is optional."
  | unknownSymbol .. =>
    "Valid mode symbols are `+` (input), `-` (output), `` ` `` (body-local output) and `#` " ++
    "(constant)."
  | emptyArgument .. => "Every argument between commas must be a non-empty identifier."
  | invalidWeight .. => "Weights must be finite numbers, e.g. `0.5::name(a,b).`."

end LineError

namespace SetupError

def message : SetupError → String
  | missingTarget => "target predicate must be defined"
  | noTargetModes target => s!"no modes were defined for target predicate \"{target}\""
  | inconsistentModes predicate =>
    s!"modes for predicate \"{predicate}\" have inconsistent structure"
  | limitTooLow setting value minimum => s!"{setting} must be >= {minimum}, got {value}"
  | fractionOutOfRange setting value =>
    setting ++ " fraction must lie in (0, 1], got " ++ Decimal.write value
  | noExamples => "no examples were given"
  | foreignExample shown target => s!"example \"{shown}\" predicate is not target \"{target}\""
  | exampleArity shown expected actual =>
    s!"example \"{shown}\" has {actual} arguments, target expects {expected}"
  | unreadable path _ => s!"failed to read learner config: {path}"
  | unparsable path reason => s!"failed to parse learner config {path}: {reason}"
  | unwritable path _ => s!"failed to write learner config: {path}"

def code : SetupError → String
  | missingTarget => "config::missing_target"
  | noTargetModes .. => "config::no_target_modes"
  | inconsistentModes .. => "config::inconsistent_modes"
  | limitTooLow .. => "config::invalid_limit"
  | fractionOutOfRange .. => "config::invalid_fraction"
  | noExamples => "config::no_examples"
  | foreignExample .. => "config::example_target_mismatch"
  | exampleArity .. => "config::example_arity"
  | unreadable .. => "config::read"
  | unparsable .. => "config::parse"
  | unwritable .. => "config::write"

def help : SetupError → String
  | missingTarget => "Pass the name of the relation to learn, e.g. `father`."
  | noTargetModes target =>
    s!"Add at least one mode for the target, e.g. `{target}(+type,+type).`."
  | inconsistentModes .. =>
    "Every mode of one predicate must declare the same argument types in the same order; only " ++
    "the mode symbols may differ."
  | limitTooLow .. => "Raise the limit, or leave it unset to use the default."
  | fractionOutOfRange .. =>
    "Use an integer for an absolute count or a float in (0, 1] for a fraction."
  | noExamples => "Provide at least one weighted example of the target relation."
  | foreignExample .. => "Every example must be an instance of the target relation."
  | exampleArity .. =>
    "Examples must have exactly as many arguments as the target modes declare."
  | unreadable .. => "Check that the file exists and is readable."
  | unparsable .. =>
    "The config must be TOML with keys such as `strategy = \"best\"`, `max_literals = 3` or " ++
    "`min_examples_learn = 0.1`."
  | unwritable .. => "Check that the parent directory exists and is writable."

def cause? : SetupError → Option String
  | unreadable _ cause => some cause
  | unwritable _ cause => some cause
  | _ => none

end SetupError

namespace Error

def message : Error → String
  | line e => e.message
  | setup e => e.message
  | notFitted => "no clause has been learned yet"

def code : Error → String
  | line e => e.code
  | setup e => e.code
  | notFitted => "learner::not_fitted"

def help : Error → String
  | line e => e.help
  | setup e => e.help
  | notFitted =>
    "Call `fit` (or `fit_with_rng`) with examples and background facts before predicting."

def cause? : Error → Option String
  | setup e => e.cause?
  | _ => none

end Error

-- Two steps succeed if both do, and fail as the first that does.
section Steps

variable {ε α β : Type}

theorem bind_eq_ok {m : Except ε α} {k : α → Except ε β} {b : β} :
    m >>= k = .ok b ↔ ∃ a, m = .ok a ∧ k a = .ok b := by
  cases m with
  | error =>
      constructor
      · rintro h
        cases h
      · rintro ⟨a, h, _⟩
        cases h
  | ok a =>
      constructor
      · exact fun h => ⟨a, rfl, h⟩
      · rintro ⟨_, ha, h⟩
        cases ha
        exact h

theorem bind_eq_error {m : Except ε α} {k : α → Except ε β} {e : ε} :
    m >>= k = .error e ↔ m = .error e ∨ ∃ a, m = .ok a ∧ k a = .error e := by
  cases m with
  | error =>
      constructor
      · rintro h
        cases h
        exact .inl rfl
      · rintro (h | ⟨a, h, _⟩) <;> cases h
        rfl
  | ok a =>
      constructor
      · exact fun h => .inr ⟨a, rfl, h⟩
      · rintro (h | ⟨_, ha, h⟩)
        · cases h
        · cases ha
          exact h

end Steps

end RuleInduction
