import ModelLang.Proofs.Declaration.Strictness
import ModelLang.Proofs.Model.Build
import ModelLang.Proofs.Report
import ModelLang.Proofs.Resolution.Relocation
import ModelLang.Proofs.TypeListing

/-!
# What settings change

Settings change what they name and nothing else.  Strictness is asked in the middle of the
declarations, and changes neither the scope nor what is found later; the limit and the listing are
asked when everything else is done.  So two models of the same items are built to the same scope
and to the same items, up to the identities of new nodes, and their errors are the same but for
mismatches of dims.
-/

namespace ModelLang

open Diagnostic (Relaxes)

/-- A report of errors keeps the first ones, as many as its limit allows, and counts the others.  It
is clean when there are none. -/
structure Built.Reports (built : Built) (limit : Nat) (errors : List Diagnostic) : Prop where
  kept : built.report.kept = Report.fitting limit errors
  dropped : built.report.kept.length + built.report.dropped = errors.length
  clean : built.isClean = true ↔ errors = []

theorem Built.Shows.reports {built : Built} {model : Model} {next : NodeId}
    (shows : built.Shows model next) :
    built.Reports model.settings.maxDiagnostics (model.errors next) where
  kept := by rw [shows.report_eq, Report.addAll_withLimit]
  dropped := by
    rw [shows.report_eq, Report.addAll_withLimit]
    exact Nat.add_sub_of_le (Report.length_fitting_le _ _)
  clean := by rw [isClean, shows.report_eq, Report.isEmpty_addAll]

namespace Model

section

variable {graph : Graph} {items : List Item} {next first second : NodeId} {model model' : Model}

/-- Items are resolved in the scope of strict dims, whether dims are strict or not. -/
theorem resolved_eq (holds : model.items = items) (listed : ∀ item ∈ items, item.node ∈ graph)
    (below : ∀ node ∈ graph, node.id < next) (later : next ≤ first) :
    model.resolved first =
      ((Resolution.Input.ofItems true listed below).startingAt first later).resolved := by
  rw [resolved, declared, Scope.scope_declareAll {} _ true, holds]
  rfl

/-- Models of the same items are resolved to the same, up to the identities of new nodes, and with
the same errors. -/
theorem resolved_congr (same : model.items = model'.items)
    (listed : ∀ item ∈ model.items, item.node ∈ graph) (below : ∀ node ∈ graph, node.id < next)
    (later : next ≤ first) (later' : next ≤ second) :
    (model.resolved first).items.map (Item.rename (min · next)) =
        (model'.resolved second).items.map (Item.rename (min · next)) ∧
      (model.resolved first).errors = (model'.resolved second).errors := by
  rw [resolved_eq rfl listed below later, resolved_eq same.symm listed below later']
  let input := Resolution.Input.ofItems true listed below
  obtain ⟨items, errors⟩ := input.resolved_startingAt later
  obtain ⟨items', errors'⟩ := input.resolved_startingAt later'
  exact ⟨items.trans items'.symm, errors.trans errors'.symm⟩

/-- Models of the same items, and with the same strictness, have the same errors. -/
theorem errors_congr (same : model.items = model'.items)
    (strictness : model.settings.strictDims = model'.settings.strictDims)
    (resolved : (model.resolved first).errors = (model'.resolved second).errors) :
    model.errors first = model'.errors second := by
  rw [errors, errors, resolved, declared, declared, strictness, same]

/-- With strict dims, a model of the same items has the same errors and perhaps more mismatches. -/
theorem relaxes_errors (same : model.items = model'.items)
    (strict : model.settings.strictDims = true)
    (resolved : (model.resolved first).errors = (model'.resolved second).errors) :
    Relaxes (model'.errors second) (model.errors first) := by
  cases lax : model'.settings.strictDims with
  | true =>
      rw [errors_congr same (strict.trans lax.symm) resolved]
      exact .refl _
  | false =>
      have relaxed := ({} : Scope).declareAll_relaxed model.items
      rw [errors, errors, resolved, declared, declared, strict, lax, ← same]
      exact relaxed.errors.append _

/-- Settings change what they name.  Models of the same items are built to the same scope, to the
same items and to the same listing, up to the identities of new nodes, and to the very same items
when new identities start alike.  Without strict dims some mismatches of types are not found, and
nothing else is changed in the errors.  Of all errors the report keeps the first ones that its limit
allows and counts the others; it is clean exactly if there are none. -/
theorem build_settings (sound : model.failure? = none) (sound' : model'.failure? = none)
    (same : model.items = model'.items) (listed : ∀ item ∈ model.items, item.node ∈ graph)
    (below : ∀ node ∈ graph, node.id < next) (later : next ≤ first) (later' : next ≤ second) :
    ∃ built built', model.build first = .ok built ∧ model'.build second = .ok built' ∧
      built.scope = built'.scope ∧
      built.items.map (Item.rename (min · next)) = built'.items.map (Item.rename (min · next)) ∧
      (first = second → built.items = built'.items) ∧
      (model.settings.listTypes = true → model'.settings.listTypes = true →
        ∃ listing, built.listing = some listing ∧ built'.listing = some listing) ∧
      (model.settings.strictDims = model'.settings.strictDims →
        model.errors first = model'.errors second) ∧
      (model.settings.strictDims = true →
        Relaxes (model'.errors second) (model.errors first)) ∧
      built.Reports model.settings.maxDiagnostics (model.errors first) ∧
      built'.Reports model'.settings.maxDiagnostics (model'.errors second) := by
  obtain ⟨built, isBuilt, shows⟩ := exists_built sound first
  obtain ⟨built', isBuilt', shows'⟩ := exists_built sound' second
  obtain ⟨items, errors⟩ := resolved_congr same listed below later later'
  have scope : model.declared.scope = model'.declared.scope := by
    rw [declared, declared, same]
    exact Scope.scope_declareAll {} _ _ _
  have alike : built.items.map (Item.rename (min · next)) =
      built'.items.map (Item.rename (min · next)) := by
    rw [shows.items_eq, shows'.items_eq, items]
  refine ⟨built, built', isBuilt, isBuilt', ?_, alike, ?_, ?_, ?_, ?_, shows.reports,
    shows'.reports⟩
  · rw [shows.scope_eq, shows'.scope_eq, scope]
  · rintro rfl
    rw [shows.items_eq, shows'.items_eq, resolved, resolved, scope, same]
  · intro lists lists'
    refine ⟨typeListing built.items, ?_, ?_⟩
    · rw [shows.listing_eq, if_pos lists]
    · rw [shows'.listing_eq, if_pos lists', typeListing_congr alike]
  · exact fun strictness => errors_congr same strictness errors
  · exact fun strict => relaxes_errors same strict errors

end

/-! ## A dim that is declared again with a comparable extent -/

namespace ComparableDims

def three : Node := .literal ⟨0, .int 3, {}⟩
def int : TypeRef := ⟨1, .int, {}⟩
def size : Dim := ⟨2, "size", three, {}⟩
def anySize : Dim := ⟨3, "size", .typeRef int, {}⟩
def noParams : Node := .list ⟨4, [], {}⟩
def useSize : Reference := ⟨5, none, "size", none, none, .unknown, none, {}⟩
def useAbsent : Reference := ⟨6, none, "absent", none, none, .unknown, none, {}⟩
def body : Node := .block ⟨7, [.reference useAbsent, .reference useSize], {}⟩
def main : Signature .function := ⟨8, "main", noParams, body, {}⟩

def nodes : List Node :=
  [three, .typeRef int, .dim size, .dim anySize, noParams, .reference useSize,
    .reference useAbsent, body, .function main]

def graph : Graph :=
  .ofList nodes
    (by simp [nodes, three, int, size, anySize, noParams, useSize, useAbsent, body, main,
      Node.children])
    (by decide)

def strict : Model where
  settings := { maxDiagnostics := 1, listTypesValue := 1 }
  items := [.dim size, .dim anySize, .function main]

def lax : Model where
  settings := { listTypesValue := 1, strictDimsValue := 0 }
  items := strict.items

theorem listed : ∀ item ∈ strict.items, item.node ∈ graph := by
  intro item member
  change item.node ∈ nodes
  simp only [strict, List.mem_cons, List.not_mem_nil, or_false] at member
  rcases member with rfl | rfl | rfl <;> simp [nodes, Item.node]

theorem below : ∀ node ∈ graph, node.id < 9 :=
  (by decide : ∀ node ∈ nodes, node.id < 9)

end ComparableDims

open ComparableDims in
/-- After `dim size[3]`, `dim size[Int]` is a mismatch only when dims are strict.  With room for one
error the use of the unknown name `absent` is counted then, and shown otherwise. -/
theorem build_settings_comparableDims :
    ∃ built built', strict.build 9 = .ok built ∧ lax.build 12 = .ok built' ∧
      built.scope = built'.scope ∧
      built.items.map (Item.rename (min · 9)) = built'.items.map (Item.rename (min · 9)) ∧
      (∃ listing, built.listing = some listing ∧ built'.listing = some listing) ∧
      built.report.kept = [.typeMismatch "size" "3" "Int" {}] ∧ built.report.dropped = 1 ∧
      built'.report.kept = [.unknownName "absent" {}] ∧ built'.report.dropped = 0 ∧
      built.isClean = false ∧ built'.isClean = false := by
  obtain ⟨built, built', isBuilt, isBuilt', scope, items, -, listing, -, -, reports, reports'⟩ :=
    build_settings (rfl : strict.failure? = none) (rfl : lax.failure? = none) rfl listed below
      (Nat.le_refl 9) (by decide : 9 ≤ 12)
  have errors : strict.errors 9 = [.typeMismatch "size" "3" "Int" {}, .unknownName "absent" {}] :=
    rfl
  have errors' : lax.errors 12 = [.unknownName "absent" {}] := rfl
  rw [errors] at reports
  rw [errors'] at reports'
  have kept : built.report.kept = [.typeMismatch "size" "3" "Int" {}] := reports.kept
  have kept' : built'.report.kept = [.unknownName "absent" {}] := reports'.kept
  have dropped : 1 + built.report.dropped = 2 := by simpa [kept] using reports.dropped
  have dropped' : built'.report.dropped = 0 := by simpa [kept'] using reports'.dropped
  refine ⟨built, built', isBuilt, isBuilt', scope, items, listing rfl rfl, kept, by omega, kept',
    dropped', ?_, ?_⟩
  · simpa using mt reports.clean.mp
  · simpa using mt reports'.clean.mp

end Model

end ModelLang
