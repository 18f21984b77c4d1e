/-!
# Symbols

Every table of cells admits the names of one grammar only. Fields, members, parameters and globals
are named by identifiers: a letter or underscore, then letters, digits and underscores. Hooks are
named by one of the operator tokens, or by an identifier behind an at sign.

Both grammars are ASCII, so a name is checked byte by byte on its UTF-8 form: every byte of a
character beyond ASCII is at least 128 and is no letter, digit or underscore. An identifier starts
with a letter or underscore and no hook does, so no name belongs to both grammars.
-/

namespace Delegation

/-- The grammar that a table imposes on the names declared in it. -/
inductive Policy where
  | identifier
  | hook
  deriving DecidableEq, Repr

/-- The hook that makes an entity callable. -/
def callHook : String := "()"

/-- The hooks that are operator tokens. -/
def operatorHooks : List String :=
  ["+", "-", "*", "/", "%", "==", "!=", "<", "<=", ">", ">=", "!", "()", "[]", "[]="]

/-- The byte of an ASCII letter or of the underscore. -/
def opensIdentifier (b : UInt8) : Bool :=
  (65 ≤ b && b ≤ 90) || (97 ≤ b && b ≤ 122) || b == 95

/-- The byte of an ASCII letter, of a digit or of the underscore. -/
def continuesIdentifier (b : UInt8) : Bool :=
  opensIdentifier b || (48 ≤ b && b ≤ 57)

def spellsIdentifier : List UInt8 → Bool
  | [] => false
  | b :: bs => opensIdentifier b && bs.all continuesIdentifier

def nameBytes (name : String) : List UInt8 :=
  name.toUTF8.data.toList

def isIdentifier (name : String) : Bool :=
  spellsIdentifier (nameBytes name)

/-- Whether the name is a hook: behind an at sign an identifier, else an operator token. -/
def isHook (name : String) : Bool :=
  match nameBytes name with
  | 64 :: named => spellsIdentifier named
  | _ => operatorHooks.contains name

namespace Policy

def accepts : Policy → String → Bool
  | .identifier, name => isIdentifier name
  | .hook, name => isHook name

def text : Policy → String
  | .identifier => "identifier"
  | .hook => "hook"

def ofText? : String → Option Policy
  | "identifier" => some .identifier
  | "hook" => some .hook
  | _ => none

theorem ofText?_text (policy : Policy) : ofText? policy.text = some policy := by
  cases policy <;> rfl

end Policy

end Delegation
