import MssClock.Dump

/-!
# Options

The options that take a value, the two flags that take none, and the names
that stand for them on the command line.
-/

namespace MssClock

inductive ValueOption where
  | file
  | setting (setting : Setting)
  | baud
  deriving DecidableEq, Repr

inductive Flag where
  | help
  | version
  deriving DecidableEq, Repr

namespace ValueOption

def all : List ValueOption :=
  .file :: Setting.all.map ValueOption.setting ++ [.baud]

def long : ValueOption → String
  | .file => "file"
  | .setting s => s.name
  | .baud => "baud"

def short? : ValueOption → Option Char
  | .file => some 'f'
  | .setting .sysref => some 's'
  | .setting _ => none
  | .baud => some 'b'

/-- The name of the value in messages. -/
def placeholder : ValueOption → String
  | .file => "FILE"
  | .setting .sysref => "SYSREF"
  | .setting .facc1 => "FACC1"
  | .setting .pllLow => "PLL_LOW"
  | .setting .pllHigh => "PLL_HIGH"
  | .baud => "BAUD"

def usage (o : ValueOption) : String :=
  "--" ++ o.long ++ " <" ++ o.placeholder ++ ">"

end ValueOption

namespace Flag

def all : List Flag := [.help, .version]

def long : Flag → String
  | .help => "help"
  | .version => "version"

def short : Flag → Char
  | .help => 'h'
  | .version => 'V'

end Flag

/-- What a name on the command line stands for. -/
inductive Name where
  | option (o : ValueOption)
  | flag (f : Flag)
  deriving DecidableEq, Repr

namespace Name

def all : List Name :=
  ValueOption.all.map Name.option ++ Flag.all.map Name.flag

def long : Name → String
  | .option o => o.long
  | .flag f => f.long

def short? : Name → Option Char
  | .option o => o.short?
  | .flag f => some f.short

def ofLong? (text : String) : Option Name :=
  all.find? fun name => name.long == text

def ofShort? (c : Char) : Option Name :=
  all.find? fun name => name.short? == some c

end Name

end MssClock
