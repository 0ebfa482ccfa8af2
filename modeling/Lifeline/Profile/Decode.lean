import Lifeline.Data.Schema
import Lifeline.Profile.Basic
import Lifeline.Sorting

/-!
# Profiles as data

A profile as a configuration file gives it. Every part that is missing keeps its built-in value;
templates and declaration patterns are replaced one by one; keys that mean nothing are refused.
-/

namespace Lifeline.Profile

open Schema

/-- A field that is spelled with hyphens, or with underscores. -/
def hyphened (name : String) : FieldName :=
  { name, other := some (Text.Packed.replace "-" "_" name) }

def namePattern : Decoder NamePattern := record fun es =>
  NamePattern.mk <$> required es "pattern" text <*> field es "case" "snake" text <*
    closed [{ name := "pattern" }, { name := "case" }] es

def namingFields : List FieldName :=
  [hyphened "method-case", hyphened "variable-case", hyphened "type-case", hyphened "test-group",
    hyphened "branch-qualifier", hyphened "verify-test", hyphened "result-test",
    hyphened "throw-test", hyphened "message-constant", hyphened "mock", hyphened "predicate",
    hyphened "loop-source"]

def namingRules : Decoder NamingRules := record fun es =>
  let builtin : NamingRules := {}
  let style (name default : String) := fieldNamed es (hyphened name) default text
  let pattern (name : String) (default : NamePattern) :=
    fieldNamed es (hyphened name) default namePattern
  NamingRules.mk <$> style "method-case" builtin.methodCase <*>
    style "variable-case" builtin.variableCase <*> style "type-case" builtin.typeCase <*>
    pattern "test-group" builtin.testGroup <*>
    style "branch-qualifier" builtin.branchQualifier <*>
    pattern "verify-test" builtin.verifyTest <*> pattern "result-test" builtin.resultTest <*>
    pattern "throw-test" builtin.throwTest <*>
    pattern "message-constant" builtin.messageConstant <*> pattern "mock" builtin.mock <*>
    pattern "predicate" builtin.predicate <*> pattern "loop-source" builtin.loopSource <*
    closed namingFields es

def pathFields : List FieldName :=
  [hyphened "test-file", hyphened "implementation-file", hyphened "interface-file",
    hyphened "scaffold-file", hyphened "decision-table-file", hyphened "errors-file",
    hyphened "module", hyphened "errors-module"]

def pathRules : Decoder PathRules := record fun es =>
  let builtin : PathRules := {}
  let rule (name default : String) := fieldNamed es (hyphened name) default text
  PathRules.mk <$> rule "test-file" builtin.testFile <*>
    rule "implementation-file" builtin.implementationFile <*>
    rule "interface-file" builtin.interfaceFile <*> rule "scaffold-file" builtin.scaffoldFile <*>
    rule "decision-table-file" builtin.decisionTableFile <*>
    rule "errors-file" builtin.errorsFile <*> rule "module" builtin.module <*>
    rule "errors-module" builtin.errorsModule <* closed pathFields es

/-- The suffixes that tell leaves apart. -/
def suffixTable : Decoder LeafSuffixes := record fun es =>
  let builtin : LeafSuffixes := {}
  LeafSuffixes.mk <$>
    fieldNamed es { name := "computational" } builtin.computational (list text) <*>
    fieldNamed es (hyphened "io-boundary") builtin.ioBoundary (list text) <*
    closed [{ name := "computational" }, hyphened "io-boundary"] es

/-- Entries whose keys are turned into those of a table. All keys must be known; the ones that are
not are named in order. -/
def knownEntries {κ : Type} (ofName? : String → Option κ) (what : String)
    (entries : List (String × String)) : Checked (List (κ × String)) :=
  let unknown := (entries.map (·.1)).filter fun name => (ofName? name).isNone
  if unknown.isEmpty then
    .ok (entries.filterMap fun (name, value) => (ofName? name).map (·, value))
  else
    .fail (.rule ("Value error, Unknown " ++ what ++ " key(s): " ++
      Text.Packed.join ", " (sortBy (fun a b => a ≤ b) unknown)))

def templateTable : Decoder Templates := fun x =>
  Templates.mk <$> (textMap x).bind (knownEntries TemplateKey.ofName? "template")

def patternTable : Decoder Declarations := fun x =>
  Declarations.mk <$>
    (textMap x).bind (knownEntries DeclarationKind.ofName? "declaration pattern")

def ofData : Decoder Profile := record fun es =>
  Profile.mk <$> fieldNamed es { name := "name" } builtin.name text <*>
    fieldNamed es { name := "naming" } {} namingRules <*>
    fieldNamed es { name := "paths" } {} pathRules <*>
    fieldNamed es (hyphened "leaf-suffixes") {} suffixTable <*>
    fieldNamed es { name := "templates" } {} templateTable <*>
    fieldNamed es { name := "declarations" } {} patternTable <*
    closed [{ name := "name" }, { name := "naming" }, { name := "paths" },
      hyphened "leaf-suffixes", { name := "templates" }, { name := "declarations" }] es

end Lifeline.Profile
