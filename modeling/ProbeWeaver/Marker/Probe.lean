import ProbeWeaver.Marker.Category

/-!
# Marker/Probe — the text of markers and probes

A marker is a comment `/*I:ID<n>:<KIND>:<field>:…:*/` that an analyzer reads back from the
instrumented text; a closing marker has no number.  A probe prints at most twice, gated by a flag
variable of its category.
-/

namespace ProbeWeaver

/-- **A marker comment.** -/
def marker (id : Option Nat) (kind : String) (fields : List String) : String :=
  "/*I:ID" ++ (id.map toString).getD "" ++ ":" ++ kind ++ ":" ++
    String.join (fields.map (· ++ ":")) ++ "*/"

namespace Probe

/-- The flag variable of a category. -/
def flagName (c : Category) : String := "print_flag_" ++ c.name

/-- **A guarded print statement** with a format and its arguments. -/
def statement (c : Category) (id : Nat) (format : String) (args : List String) : String :=
  let flag := flagName c ++ "[" ++ toString id ++ "]"
  "if (" ++ flag ++ "!=2) \x7bprintf(\"" ++ format ++ "\\n\"" ++
    String.join (args.map ("," ++ ·)) ++ ");" ++ flag ++ "++;\x7d\n"

/-- The definition of a flag array. -/
def flagDefinition (c : Category) (length : Nat) : String :=
  "/*I::*/ int " ++ flagName c ++ "[" ++ toString length ++ "];\n"

/-- The declaration of a flag array that another file defines. -/
def flagDeclaration (c : Category) (length : Nat) : String :=
  "/*I::*/ extern int " ++ flagName c ++ "[" ++ toString length ++ "];\n"

end Probe

end ProbeWeaver
