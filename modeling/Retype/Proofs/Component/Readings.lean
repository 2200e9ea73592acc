import Mathlib.Data.List.Basic
import Retype.Component.Imports
import Retype.Proofs.Module.Statements

/-!
# Where imports are read

Every recorded import was read from one string literal: the source of a statement
or the only argument of a call of `require`. The readings of a module, without
their literals, are its imports.
-/

set_option autoImplicit false

namespace Retype.Import

variable (src : Source)

/-- An import with the string literal of its specifier, and whether it is required. -/
structure Reading where
  literal : Node
  required : Bool
  specifier : String
  names : List String

def requiredLiteral? (d : Node) : Option Node :=
  (d.value? "value").bind fun call => call.arguments.head?

def requiredReading? (d : Node) : Option Reading :=
  (required? src d).bind fun (spec, names) =>
    (requiredLiteral? d).map fun n => ⟨n, true, spec, names⟩

def sourceReading? (names : List String) (stmt : Node) : Option Reading :=
  (stmt.child? "source").bind fun n => (src.stringOf? n).map fun spec => ⟨n, false, spec, names⟩

def readingsOf (stmt : Node) : List Reading :=
  if stmt.kind == "import_statement" then (sourceReading? src (importedNames src stmt) stmt).toList
  else if stmt.kind == "export_statement" && (stmt.child? "source").isSome then
    (sourceReading? src (exportedNames src stmt) stmt).toList
  else if stmt.isVariables then stmt.namedChildren.filterMap (requiredReading? src)
  else []

def readings (root : Node) : List Reading :=
  (root.namedChildren.flatMap (readingsOf src)).filter fun r => !r.specifier.isEmpty

def Reading.entry (r : Reading) (table : AliasTable) : Import :=
  ⟨r.specifier, r.names, table.isInternal r.specifier⟩

/-! ## Readings and imports -/

variable {src}

theorem required?_literal {d : Node} {x : String × List String} (h : required? src d = some x) :
    ∃ value a, d.child? "value" = some value ∧ value.unwrap.isCall = true ∧
      value.unwrap.arguments = [a] ∧ src.stringOf? a = some x.1 := by
  unfold required? at h
  split at h
  · split at h
    · cases h
    · next call hcall =>
      obtain ⟨value, hvalue, rfl⟩ := Option.map_eq_some_iff.mp hcall
      split at h
      · next hk =>
        split at h
        · next a ha =>
          obtain ⟨spec, hspec, hx⟩ := Option.map_eq_some_iff.mp h
          refine ⟨value, a, hvalue, (Bool.and_eq_true_iff.mp hk).1, ha, ?_⟩
          split at hx
          · split at hx <;> (cases hx; exact hspec)
          · cases hx
            exact hspec
        · cases h
      · cases h
  · cases h

theorem requiredReading?_eq (d : Node) :
    (requiredReading? src d).map (fun r => (r.specifier, r.names)) = required? src d := by
  unfold requiredReading?
  cases h : required? src d with
  | none => rfl
  | some x =>
    obtain ⟨value, a, hvalue, -, ha, -⟩ := required?_literal h
    simp [requiredLiteral?, Node.value?, hvalue, ha]

theorem readingsOf_eq (stmt : Node) :
    (readingsOf src stmt).map (fun r => (r.specifier, r.names)) = ofStatement src stmt := by
  have hsource : ∀ names, (sourceReading? src names stmt).toList.map (fun r => (r.specifier, r.names)) =
      (((stmt.child? "source").bind src.stringOf?).map fun spec => (spec, names)).toList := by
    intro names
    unfold sourceReading?
    cases stmt.child? "source" with
    | none => rfl
    | some n =>
      rw [Option.bind_some, Option.bind_some]
      cases src.stringOf? n <;> rfl
  unfold readingsOf ofStatement
  dsimp only
  split
  · exact hsource _
  · split
    · exact hsource _
    · split
      · rw [List.map_filterMap]
        exact List.filterMap_congr fun d _ => requiredReading?_eq d
      · rfl

theorem readings_entries (table : AliasTable) (root : Node) :
    (readings src root).map (fun r => r.entry table) = all src table root := by
  have hmap : root.namedChildren.flatMap (ofStatement src) =
      (root.namedChildren.flatMap (readingsOf src)).map fun r => (r.specifier, r.names) := by
    rw [List.map_flatMap]
    exact List.flatMap_congr fun stmt _ => (readingsOf_eq stmt).symm
  rw [all, hmap, List.filter_map, List.map_map]
  rfl

/-! ## Where a reading stands -/

theorem mem_sourceReading {names : List String} {stmt : Node} {r : Reading}
    (h : r ∈ (sourceReading? src names stmt).toList) :
    r.required = false ∧ stmt.child? "source" = some r.literal ∧
      src.stringOf? r.literal = some r.specifier := by
  obtain ⟨n, hn, hr⟩ := Option.bind_eq_some_iff.mp (Option.mem_toList.mp h)
  obtain ⟨spec, hspec, rfl⟩ := Option.map_eq_some_iff.mp hr
  exact ⟨rfl, hn, hspec⟩

/-- A reading is of the source of an import or an export, or of a required module. -/
theorem reading_cases {root : Node} {r : Reading} (h : r ∈ readings src root) :
    ∃ stmt ∈ root.namedChildren, src.stringOf? r.literal = some r.specifier ∧
      ((r.required = false ∧ (stmt.kind = "import_statement" ∨ stmt.kind = "export_statement") ∧
          stmt.child? "source" = some r.literal) ∨
        (r.required = true ∧ stmt.isVariables = true ∧ ∃ d ∈ stmt.namedChildren, ∃ value,
          d.child? "value" = some value ∧ value.unwrap.isCall = true ∧
            value.unwrap.arguments = [r.literal])) := by
  obtain ⟨stmt, hstmt, hr⟩ := List.mem_flatMap.mp (List.mem_filter.mp h).1
  refine ⟨stmt, hstmt, ?_⟩
  unfold readingsOf at hr
  split at hr
  · next hk =>
    obtain ⟨hreq, hsrc, hspec⟩ := mem_sourceReading hr
    exact ⟨hspec, Or.inl ⟨hreq, Or.inl (by simpa using hk), hsrc⟩⟩
  · split at hr
    · next hk =>
      obtain ⟨hreq, hsrc, hspec⟩ := mem_sourceReading hr
      exact ⟨hspec, Or.inl ⟨hreq, Or.inr (by simpa using (Bool.and_eq_true_iff.mp hk).1), hsrc⟩⟩
    · split at hr
      · next hk =>
        obtain ⟨d, hd, hdr⟩ := List.mem_filterMap.mp hr
        obtain ⟨⟨spec, names⟩, hreq, hmap⟩ := Option.bind_eq_some_iff.mp hdr
        obtain ⟨n, hn, rfl⟩ := Option.map_eq_some_iff.mp hmap
        obtain ⟨value, a, hvalue, hcall, ha, hspec⟩ := required?_literal hreq
        have han : n = a := by
          simpa [requiredLiteral?, Node.value?, hvalue, ha] using hn.symm
        subst han
        exact ⟨hspec, Or.inr ⟨rfl, hk, d, hd, value, hvalue, hcall, ha⟩⟩
      · simp at hr

end Retype.Import
