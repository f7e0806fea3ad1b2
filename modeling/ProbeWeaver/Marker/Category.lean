/-!
# Marker/Category — the kinds of numbered text a run inserts

Every category numbers its markers from zero, independently of the others.
-/

namespace ProbeWeaver

/-- A kind of marker or hook. -/
inductive Category where
  | brace | varDecl | funcEnter | inst | array | ptr | mem | var | ptrIndex | int | init
  | mutArr | mutPtr | intOpL | intOpR | heap | free
  deriving DecidableEq, Repr

namespace Category

/-- Every category, in the order reports list them. -/
def all : List Category :=
  [.brace, .varDecl, .funcEnter, .inst, .array, .ptr, .mem, .var, .ptrIndex, .int, .init,
    .mutArr, .mutPtr, .intOpL, .intOpR, .heap, .free]

/-- The name in reports and in probe variables. -/
def name : Category → String
  | .brace => "brace"
  | .varDecl => "vardecl"
  | .funcEnter => "funcenter"
  | .inst => "inst"
  | .array => "array"
  | .ptr => "ptr"
  | .mem => "mem"
  | .var => "var"
  | .ptrIndex => "ptrindex"
  | .int => "int"
  | .init => "init"
  | .mutArr => "mutarr"
  | .mutPtr => "mutptr"
  | .intOpL => "intopl"
  | .intOpR => "intopr"
  | .heap => "heap"
  | .free => "free"

/-- The place in `all`. -/
def index : Category → Fin 17
  | .brace => 0
  | .varDecl => 1
  | .funcEnter => 2
  | .inst => 3
  | .array => 4
  | .ptr => 5
  | .mem => 6
  | .var => 7
  | .ptrIndex => 8
  | .int => 9
  | .init => 10
  | .mutArr => 11
  | .mutPtr => 12
  | .intOpL => 13
  | .intOpR => 14
  | .heap => 15
  | .free => 16

theorem mem_all (c : Category) : c ∈ all := by cases c <;> decide

theorem index_injective {c d : Category} (h : c.index = d.index) : c = d := by
  cases c <;> cases d <;> first | rfl | exact absurd h (by decide)

/-- The probes of the category are gated by a flag array. -/
def isGated : Category → Bool
  | .inst | .int | .mem | .var | .ptr | .free => true
  | _ => false

/-- The category of a name. -/
def ofName? (s : String) : Option Category := all.find? (·.name == s)

end Category

end ProbeWeaver
