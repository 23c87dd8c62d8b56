/-
Command line arguments.

An option is named in full or by the start of a long name that fits no other,
and takes its value from the next argument or after an equals sign. Single
letters without a value can be joined. What looks like a negative number, or
holds a space, is a value and no option, and after two dashes everything is.
Two dashes that are given as the value itself are dropped, and leave an empty
list in its place.

`parse` goes through the arguments in order and stops at the first one whose
value is refused; then it asks for the required options, and last for
arguments that nothing took.
-/
import AssertionReplay.Json.Basic
import AssertionReplay.Text.Quoted

namespace AssertionReplay.CommandLine

open Text

/-- What an option does to the settings. -/
inductive Action (σ : Type) where
  | flag (set : σ → σ)
  /-- Sets what a reader makes of the argument; a refused argument gives the reason. -/
  | value (read : Text → Except Text Json) (set : Json → σ → σ)
  /-- Asks for help instead of a run. -/
  | help

structure Spec (σ : Type) where
  names : List Text
  action : Action σ
  required : Bool := false

/-- What the arguments come to. -/
inductive Parsed (σ : Type) where
  | settings (s : σ)
  | refused (reason : Text)
  | help

/-- How an argument is to be taken. -/
inductive Piece (σ : Type) where
  | plain
  | dashes
  | unknown
  /-- An option with the name that was used, and its value if the same argument gives one. -/
  | option (spec : Spec σ) (name : Text) (given? : Option Text)

variable {σ : Type}

/-- All names with their options, in order. -/
def namesOf (specs : List (Spec σ)) : List (Text × Spec σ) :=
  specs.flatMap fun spec => spec.names.map fun name => (name, spec)

/-- The name under which an option is spoken of. -/
def Spec.title (spec : Spec σ) : Text := Text.intercalate "/" spec.names

/-- Whether a name is one dash and a letter. -/
def isSingleLetter (name : Text) : Bool :=
  match name.letters with
  | [.char '-', l] => l != .char '-'
  | _ => false

/-- The parts before and after the first equals sign. -/
def splitEquals (arg : Text) : Text × Option Text :=
  match arg.letters.dropWhile (· != .char '=') with
  | [] => (arg, none)
  | _ :: rest => (⟨arg.letters.takeWhile (· != .char '=')⟩, some ⟨rest⟩)

/-- The options that an argument may mean by abbreviation. -/
def candidates (specs : List (Spec σ)) (arg : Text) : List (Piece σ × Text) :=
  if arg.startsWith "--" then
    let (head, given?) := splitEquals arg
    (namesOf specs).filterMap fun (name, spec) =>
      if name.startsWith head then some (.option spec name given?, name) else none
  else
    (namesOf specs).filterMap fun (name, spec) =>
      if name == arg.take 2 then some (.option spec name (some ⟨arg.letters.drop 2⟩), name)
      else if name.startsWith arg then some (.option spec name none, name)
      else none

/-- The letters without a line feed at their end. -/
def dropLineFeed (ls : List Letter) : List Letter :=
  if ls.getLast? == some (.char '\n') then ls.dropLast else ls

/-- Whether an argument is a dash and a number, which one line feed may follow. -/
def looksNegative (arg : Text) : Bool :=
  let isDecimal := Letter.satisfies fun c => (decimalDigit? c).isSome
  match dropLineFeed arg.letters with
  | .char '-' :: body =>
    match body.dropWhile isDecimal with
    | [] => !body.isEmpty
    | .char '.' :: fraction => !fraction.isEmpty && fraction.all isDecimal
    | _ => false
  | _ => false

/-- Tells how an argument is to be taken, or why it cannot be told. -/
def classify (specs : List (Spec σ)) (arg : Text) : Except Text (Piece σ) :=
  if !arg.startsWith "-" || arg.length < 2 then .ok .plain
  else
    match (namesOf specs).lookup arg with
    | some spec => .ok (.option spec arg none)
    | none =>
      let (head, given?) := splitEquals arg
      match given?, (namesOf specs).lookup head with
      | some given, some spec => .ok (.option spec head (some given))
      | _, _ =>
        match candidates specs arg with
        | [(piece, _)] => .ok piece
        | [] =>
          .ok (if looksNegative arg || arg.letters.contains (.char ' ') then .plain else .unknown)
        | many => .error ("ambiguous option: " ++ arg ++ " could match " ++
            Text.intercalate ", " (many.map (·.2)))

/-- The argument after which every one is a value. -/
def twoDashes : Text := "--"

/-- Tells it for all arguments; after two dashes every one is a value. -/
def classifyAll (specs : List (Spec σ)) : List Text → Except Text (List (Text × Piece σ))
  | [] => .ok []
  | arg :: rest =>
    if arg == twoDashes then .ok ((arg, .dashes) :: rest.map fun arg => (arg, .plain))
    else do
      let piece ← classify specs arg
      let others ← classifyAll specs rest
      return (arg, piece) :: others

/-- The settings so far, the titles of the options seen, and the arguments that nothing took. -/
structure Progressed (σ : Type) where
  settings : σ
  seen : List Text := []
  extras : List Text := []

/-- Why going through the arguments ended early. -/
inductive Stop where
  | refused (reason : Text)
  | help

/-- The reason to refuse an option's argument. -/
def refused (spec : Spec σ) (reason : Text) : Stop :=
  .refused ("argument " ++ spec.title ++ ": " ++ reason)

def ignored (spec : Spec σ) (given : Text) : Stop :=
  refused spec ("ignored explicit argument " ++ quoted given)

def Progressed.saw (p : Progressed σ) (spec : Spec σ) (change : σ → σ) : Progressed σ :=
  { p with seen := spec.title :: p.seen, settings := change p.settings }

/-- What an option's argument stands for: two dashes for an empty list, and anything else for what
the reader makes of it. -/
def valueOf (read : Text → Except Text Json) (given : Text) : Except Text Json :=
  if given == twoDashes then .ok (.arr []) else read given

/-- Applies an option that takes a value. -/
def applyValue (spec : Spec σ) (read : Text → Except Text Json) (set : Json → σ → σ)
    (given : Text) (p : Progressed σ) : Except Stop (Progressed σ) :=
  match valueOf read given with
  | .ok v => .ok (p.saw spec (set v))
  | .error reason => .error (refused spec reason)

/-- Applies options that take no value. -/
def applyFlags (specs : List (Spec σ)) (p : Progressed σ) : Except Stop (Progressed σ) :=
  specs.foldlM (fun p spec =>
    match spec.action with
    | .flag set => .ok (p.saw spec set)
    | .value .. => .ok p
    | .help => .error .help) p

/-- The options that one argument names: those before the last one, which take no value, and the
last one with its value if the argument gives one. -/
structure Named (σ : Type) where
  flags : List (Spec σ)
  last : Spec σ
  given? : Option Text

/-- The options of joined single letters. `spec` is the current one, and `passed` holds those before
it. -/
def joinedOptions (specs : List (Spec σ)) (passed : List (Spec σ)) (spec : Spec σ) :
    List Letter → Except Stop (Named σ)
  | [] => .ok ⟨passed, spec, none⟩
  | l :: ls =>
    let given : Text := ⟨l :: ls⟩
    match spec.action, (namesOf specs).lookup ⟨[.char '-', l]⟩ with
    | .value .., _ => .ok ⟨passed, spec, some given⟩
    | _, some next => joinedOptions specs (passed ++ [spec]) next ls
    | _, none => .error (ignored spec given)

/-- The options that an argument names which was taken for `spec` by a name. -/
def namedOptions (specs : List (Spec σ)) (spec : Spec σ) (name : Text)
    (given? : Option Text) : Except Stop (Named σ) :=
  match spec.action, given? with
  | .value .., _ | _, none => .ok ⟨[], spec, given?⟩
  | _, some given =>
    if isSingleLetter name && !given.isEmpty then joinedOptions specs [] spec given.letters
    else .error (ignored spec given)

/-- Goes through the arguments. What an argument names is known before any of it takes effect. -/
def applyAll (specs : List (Spec σ)) (p : Progressed σ) :
    List (Text × Piece σ) → Except Stop (Progressed σ)
  | [] => .ok p
  | (arg, piece) :: rest =>
    match piece with
    | .plain | .dashes | .unknown =>
      applyAll specs { p with extras := p.extras ++ [arg] } rest
    | .option spec name given? => do
      let named ← namedOptions specs spec name given?
      let last := named.last
      match last.action, named.given?, rest with
      | .value read set, some given, rest => do
        applyAll specs (← applyValue last read set given (← applyFlags named.flags p)) rest
      | .value read set, none, (next, .plain) :: rest => do
        applyAll specs (← applyValue last read set next (← applyFlags named.flags p)) rest
      | .value .., none, _ => .error (refused last "expected one argument")
      | _, _, rest => do applyAll specs (← applyFlags (named.flags ++ [last]) p) rest

/-- Takes the arguments of a run. -/
def parse (specs : List (Spec σ)) (initial : σ) (args : List Text) : Parsed σ :=
  match classifyAll specs args with
  | .error reason => .refused reason
  | .ok pieces =>
    match applyAll specs { settings := initial } pieces with
    | .error (.refused reason) => .refused reason
    | .error .help => .help
    | .ok p =>
      let missing := specs.filter fun spec => spec.required && !p.seen.contains spec.title
      if !missing.isEmpty then
        .refused ("the following arguments are required: " ++
          Text.intercalate ", " (missing.map Spec.title))
      else if !p.extras.isEmpty then
        .refused ("unrecognized arguments: " ++ Text.intercalate " " p.extras)
      else .settings p.settings

end AssertionReplay.CommandLine
