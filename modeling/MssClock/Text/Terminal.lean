/-!
# Text shown on a terminal

A terminal obeys control sequences instead of showing them.  Here they are
taken out of a text together with all other control characters, except those
that count as white space.  A sequence starts with the escape character; what
follows decides where it ends.  Cancel and substitute end any sequence, and
another escape starts a new one.

White space control characters inside a sequence are shown and end it, except
in the kinds that carry a string.  A character beyond ASCII is shown only
outside of sequences; inside one it is passed over.
-/

namespace MssClock

inductive TerminalState where
  | text
  | escape
  /-- After an escape and at least one intermediate character. -/
  | intermediate
  /-- A control sequence with parameters, up to its final character. -/
  | sequence
  /-- A string for a device, at its first character. -/
  | device
  /-- Among the parameters of a string for a device. -/
  | deviceParameters
  /-- Among the intermediate characters of a string for a device. -/
  | deviceIntermediate
  /-- A string for the operating system, which a bell may end. -/
  | systemString
  /-- Any other string, and what follows the opening of one for a device. -/
  | string
  deriving DecidableEq, Repr

namespace TerminalState

def escapeChar : Char := '\x1b'

/-- Cancel and substitute. -/
def cancels (c : Char) : Bool :=
  c == '\x18' || c == '\x1a'

/-- The control characters that are shown. -/
def isSpacing (c : Char) : Bool :=
  c == '\t' || c == '\n' || c == '\x0c' || c == '\r'

def isControl (c : Char) : Bool :=
  c < ' ' || c == '\x7f'

def carriesString : TerminalState → Bool
  | .device | .deviceParameters | .deviceIntermediate | .systemString | .string => true
  | .text | .escape | .intermediate | .sequence => false

/-- The state after a printable character of a sequence. -/
def advance (state : TerminalState) (c : Char) : TerminalState :=
  match state with
  | .text => .text
  | .escape =>
      if c < '0' then .intermediate
      else if c = '[' then .sequence
      else if c = ']' then .systemString
      else if c = 'P' then .device
      else if c = 'X' ∨ c = '^' ∨ c = '_' then .string
      else .text
  | .intermediate => if c < '0' then .intermediate else .text
  | .sequence => if c < '@' then .sequence else .text
  | .device =>
      if c < '0' then .deviceIntermediate
      else if c < '@' then .deviceParameters
      else .string
  | .deviceParameters =>
      if c < '0' then .deviceIntermediate
      else if c < '<' then .deviceParameters
      else .string
  | .deviceIntermediate => if c < '0' then .deviceIntermediate else .string
  | .systemString => .systemString
  | .string => .string

/-- What is shown of one ASCII character, and the state after it. -/
def showAscii (state : TerminalState) (c : Char) : List Char × TerminalState :=
  if c = escapeChar then ([], .escape)
  else if cancels c then ([], .text)
  else if isControl c then
    if state.carriesString then
      ([], if state = .systemString ∧ c = '\x07' then .text else state)
    else if isSpacing c then ([c], .text)
    else ([], state)
  else if state = .text then ([c], .text)
  else ([], state.advance c)

/-- The string terminator among the control characters of eight bits. -/
def terminator : UInt8 := 0x9c

/-- What is shown of one character beyond ASCII, and the state after it.
Strings are scanned by octets, so that a character whose encoding has the
terminator in it ends one. -/
def showWide (state : TerminalState) (c : Char) : List Char × TerminalState :=
  if state = .text then ([c], .text)
  else if state = .string ∧ terminator ∈ String.utf8EncodeChar c then ([], .text)
  else ([], state)

/-- What is shown of one character, and the state after it. -/
def step (state : TerminalState) (c : Char) : List Char × TerminalState :=
  if c.toNat < 0x80 then state.showAscii c else state.showWide c

def shown (state : TerminalState) : List Char → List Char
  | [] => []
  | c :: rest => (state.step c).1 ++ (state.step c).2.shown rest

end TerminalState

/-- The visible part of a text. -/
def visible (text : String) : String :=
  String.ofList (TerminalState.text.shown text.toList)

/-- A text up to its first line end, which may be a pair. -/
def firstLine (text : String) : String :=
  let chars := text.toList
  let line := chars.takeWhile fun c => c != '\n'
  if line.length < chars.length ∧ line.getLast? = some '\r' then
    String.ofList line.dropLast
  else String.ofList line

end MssClock
