import MssClock.Command.Given

/-!
# Reading the command line

Arguments are taken from left to right and the first error or flag decides.  A
value may be attached to its option or stand in the next argument.  An
attached value is taken over at once.  A value in the next argument waits
until another option or flag is met, or the end; an argument that is neither
is refused before that, without a look at the value that waits.

An argument that starts with a hyphen is never a value, the lone hyphen
excepted.  After two hyphens every argument is refused.
-/

namespace MssClock

inductive Stop where
  | help
  | version
  | error (error : ArgumentError)
  deriving DecidableEq, Repr

def Flag.stop : Flag → Stop
  | .help => .help
  | .version => .version

/-- An option whose value has not been taken over. -/
structure Pending where
  option : ValueOption
  value : Option String
  deriving DecidableEq, Repr

structure Progress where
  given : Given
  pending : Option Pending
  deriving DecidableEq, Repr

/-- The forms of one argument. -/
inductive Argument where
  /-- A name after two hyphens, with what follows its equals sign. -/
  | long (name : String) (attached : Option String)
  /-- A letter after one hyphen, with what follows it. -/
  | short (letter : Char) (following : List Char)
  | plain (text : String)
  deriving DecidableEq, Repr

def Argument.ofChars : List Char → Argument
  | '-' :: '-' :: text =>
      let name := String.ofList (text.takeWhile fun c => c != '=')
      match text.dropWhile fun c => c != '=' with
      | _ :: value => .long name (some (String.ofList value))
      | [] => .long name none
  | '-' :: letter :: following => .short letter following
  | text => .plain (String.ofList text)

def Argument.ofString (text : String) : Argument :=
  .ofChars text.toList

/-- The value that is attached to a letter, an equals sign not counted. -/
def attachedValue? : List Char → Option String
  | [] => none
  | '=' :: text => some (String.ofList text)
  | text => some (String.ofList text)

namespace Progress

def start : Progress := ⟨.nothing, none⟩

def refuse {α : Type} (e : ArgumentError) : Except Stop α :=
  .error (.error e)

/-- Takes over the value that waits. -/
def settle (progress : Progress) : Except Stop Given :=
  match progress.pending with
  | none => .ok progress.given
  | some ⟨o, none⟩ => refuse (.valueRequired o)
  | some ⟨o, some text⟩ => (progress.given.accept o text).mapError .error

/-- Meets an option, with the value attached to it if there is one. -/
def meet (progress : Progress) (o : ValueOption) (attached : Option String) :
    Except Stop Progress := do
  let given ← progress.settle
  match attached with
  | none => return ⟨given, some ⟨o, none⟩⟩
  | some text => return ⟨← (given.accept o text).mapError .error, none⟩

def meetFlag (progress : Progress) (f : Flag) : Except Stop Progress := do
  let _ ← progress.settle
  .error f.stop

def step (progress : Progress) : Argument → Except Stop Progress
  | .long name attached =>
      match Name.ofLong? name, attached with
      | some (.option o), _ => progress.meet o attached
      | some (.flag f), none => progress.meetFlag f
      | some (.flag f), some text => refuse (.flagWithValue f text)
      | none, _ => refuse (.unexpected ("--" ++ name))
  | .short letter following =>
      match Name.ofShort? letter with
      | some (.option o) => progress.meet o (attachedValue? following)
      | some (.flag f) => progress.meetFlag f
      | none => refuse (.unexpected (String.ofList ['-', letter]))
  | .plain text =>
      match progress.pending with
      | some ⟨o, none⟩ => .ok { progress with pending := some ⟨o, some text⟩ }
      | _ => refuse (.unexpected text)

/-- Reads the rest of the command line. -/
def finish (progress : Progress) : List String → Except Stop Given
  | [] => progress.settle
  | argument :: rest =>
      if argument = "--" then
        match rest with
        | [] => progress.settle
        | refused :: _ => refuse (.unexpected refused)
      else
        match progress.step (.ofString argument) with
        | .error stop => .error stop
        | .ok next => next.finish rest

end Progress

def Given.ofArguments (arguments : List String) : Except Stop Given :=
  Progress.start.finish arguments

end MssClock
