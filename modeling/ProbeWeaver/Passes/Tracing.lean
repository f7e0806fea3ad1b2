import ProbeWeaver.Config.Settings
import ProbeWeaver.Marker.Probe
import ProbeWeaver.Passes.Observation

/-!
# Passes/Tracing — markers on blocks, declarations, sites and entries

The instrument pass brackets every block outside `main` with markers, marks every local declarator
before its statement, probes every statement slot outside `main`, and marks the entry of every
other function.  The rules of the selected mode run in the same pass.  The file that defines `main`
gets the flag arrays of the probes; another file declares those that it uses.
-/

namespace ProbeWeaver.Tracing

/-- The categories whose flag arrays the pass declares, in order. -/
def flagCategories : List Category := [.inst, .int, .mem, .var, .ptr]

/-! ## Texts -/

/-- The opening marker of a block. -/
def braceStart : EditText := fun _ _ => do
  let id ← draw .brace
  return some ("\n" ++ marker (some id) "BRACESTART" [] ++ "\n")

/-- The closing marker of a block. -/
def braceEnd : String := "\n" ++ marker none "BRACEEND" [] ++ "\n"

/-- The marker of a declarator, with its type and name. -/
def varDeclMarker : EditText := fun cx m => do
  match cx.unit.declarator? m.root with
  | none => return none
  | some d =>
    let id ← draw .varDecl
    return some
      (marker (some id) "VARDECL" [d.type.withoutVolatile.render, cx.unit.text d.name] ++ "\n")

/-- The marker and the probe of a site. -/
def siteProbe : EditText := fun _ _ => do
  let id ← draw .inst
  return some ("\n" ++ marker (some id) "INSERTIONSITE" [] ++
    Probe.statement .inst id ("INST:" ++ toString id) [])

/-- The spelling of what a function returns. -/
def resultSpelling (u : SourceUnit) (definition : Node) : String :=
  match Declarator.definedType? u.source definition with
  | some (.function result _) => result.withoutVolatile.render
  | _ => "int"

/-- The marker of a function's entry. -/
def entryMarker : EditText := fun cx m => do
  match m.root.definedName? cx.unit.source with
  | none => return none
  | some name =>
    let id ← draw .funcEnter
    return some
      (marker (some id) "FUNCTIONENTER" [resultSpelling cx.unit m.root, name] ++ "\n")

/-- A probe of the category stands in the file. -/
def usesFlag (accepted : EditSet) (c : Category) : Bool :=
  accepted.insertsAnywhere (Probe.flagName c ++ "[")

/-- The flag arrays: all of them where `main` is, elsewhere those in use. -/
def flagLines : EditText := fun cx _ => do
  let numbering ← get
  if cx.unit.holdsMain then
    return some <| String.join <|
      flagCategories.map fun c => Probe.flagDefinition c (numbering.count c)
  else
    let used := flagCategories.filter (usesFlag cx.accepted)
    if used.isEmpty then return none
    else return some <| String.join <|
      used.map fun c => Probe.flagDeclaration c (numbering.count c)

/-! ## Rules -/

/-- Markers around blocks. -/
def blockRule : Rule :=
  (Rule.ofPattern "log-braces" (Condition.anyOf [.compoundStatement]))
    |>.filter Condition.isSpelledInFile
    |>.filter Condition.outsideMain
    |>.writeBefore "root" braceStart
    |>.writeAfter "root" (.literal braceEnd)

/-- Markers of declarators. -/
def declarationRule : Rule :=
  (Rule.ofPattern "log-var-decl" Condition.eachDeclarator)
    |>.bind "stmt" Condition.slotAround
    |>.filter Condition.isSpelledInFile
    |>.filter Condition.isAutomatic
    |>.writeBefore "stmt" varDeclMarker

/-- The statements that may be sites. -/
def siteKinds : List Kind :=
  [.expressionStatement, .compoundStatement, .ifStatement, .forStatement, .whileStatement,
    .doStatement, .switchStatement, .returnStatement, .breakStatement, .continueStatement,
    .gotoStatement, .labeledStatement, .declaration]

/-- A slot, other than a block that serves as a body. -/
def isSite : Filter := fun m _ =>
  m.root.isSlot && !(m.root.kind == .compoundStatement && m.root.isBody)

/-- Probes of sites. -/
def siteRule : Rule :=
  (Rule.ofPattern "log-insertion-site" (Condition.anyOf siteKinds))
    |>.filter Condition.isSpelledInFile
    |>.filter Condition.outsideMain
    |>.filter isSite
    |>.writeBefore "root" siteProbe

/-- The first statement of a function's body. -/
def entryStatement : Finder := fun m _ => do (← m.node? "body").statementAtStart?

/-- Markers of entries. -/
def entryRule : Rule :=
  (Rule.ofPattern "log-function-entry"
    ((Pattern.construct .functionDefinition
      [.field .body ((Pattern.construct .compoundStatement []).capture "body")]).capture "root"))
    |>.bind "stmt" entryStatement
    |>.filter Condition.isSpelledInFile
    |>.filter Condition.outsideMain
    |>.writeBefore "stmt" entryMarker

/-- Flag arrays, once the counts are final. -/
def flagRule : Rule :=
  (Rule.ofPattern "log-flag-arrays" Condition.wholeFile)
    |>.writeAtStart flagLines
    |>.lately

/-- The rule sets of a mode. -/
def modeSets (mode : Option ProbeMode) : List RuleSet :=
  match mode with
  | some mode => Observation.setsOf mode
  | none => []

/-- **The instrument pass.** -/
def pass (mode : Option ProbeMode) : Pass :=
  { name := "instrument"
    sets := [.single blockRule, .single declarationRule, .single siteRule] ++ modeSets mode ++
      [.single entryRule, .single flagRule]
    anchorsStatements := true }

end ProbeWeaver.Tracing
