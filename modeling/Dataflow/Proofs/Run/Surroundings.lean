import Dataflow.Proofs.Run.Invariant
import Dataflow.Proofs.Run.Strict
import Dataflow.Run.Probe

/-!
# What programs usually run in

The standard environment may be used on every machine that has given out its identity. Probes are
functions like the built-in ones: they cannot tell values apart that stand for each other, and they
hand every error on.

* `Environment.prelude_fine`: the standard environment;
* `Probe.script_related`, `Probe.script_orderly`: probes;
* `Host.offering`, `Environment.offering`: a host that offers all probes, and an environment with one
  of them;
* `Machine.primed`: a machine on which nothing has run, for the standard environment.
-/

namespace Dataflow

open Run

/-! ## The standard environment -/

section Prelude

variable {L : Link}

theorem Value.Related.ofBuiltin (b : Builtin) :
    Value.Related L (.ofBuiltin b) (.ofBuiltin b) := .function (.native _)

/-- Symbols that stand for themselves one by one. -/
theorem SymbolsRelated.self {symbols : List (String × Value)}
    (h : ∀ s ∈ symbols, Value.Related L s.2 s.2) : SymbolsRelated L symbols symbols := by
  induction symbols with
  | nil => exact .nil
  | cons s symbols ih =>
    exact .cons s.1 (h s List.mem_cons_self) (ih fun s hs => h s (List.mem_cons_of_mem _ hs))

theorem Value.mathLibrary_related {identity : Nat} (hi : L.identity identity identity) :
    Value.Related L (.mathLibrary identity) (.mathLibrary identity) := by
  refine .library "math" hi (.self fun s hs => ?_)
  rcases List.mem_append.mp hs with hs | hs
  · simp only [List.mem_cons, List.not_mem_nil, or_false] at hs
    rcases hs with rfl | rfl <;> exact .float _
  · obtain ⟨b, -, rfl⟩ := List.mem_map.mp hs
    exact Value.Related.ofBuiltin b

/-- The values of the standard environment stand for themselves if its identity does. -/
theorem Environment.prelude_related {identity : Nat} (hi : L.identity identity identity)
    {entry : String × Value} (he : entry ∈ (prelude identity).entries) :
    Value.Related L entry.2 entry.2 := by
  rcases List.mem_append.mp he with he | he
  · rcases List.mem_append.mp he with he | he
    · simp only [List.mem_cons, List.not_mem_nil, or_false] at he
      rcases he with rfl | rfl | rfl
      · exact .bool true
      · exact .bool false
      · exact .unit
    · obtain ⟨b, -, rfl⟩ := List.mem_map.mp he
      exact Value.Related.ofBuiltin b
  · obtain rfl := List.mem_singleton.mp he
    exact Value.mathLibrary_related hi

end Prelude

/-- What has a number in an environment is the value of an entry. -/
theorem Environment.exists_entry_of_get? {e : Environment} {id : ValueId} {v : Value}
    (hv : e.get? id = some v) : ∃ entry ∈ e.entries, entry.2 = v := by
  rw [get?, Option.map_eq_some_iff] at hv
  obtain ⟨entry, he, rfl⟩ := hv
  rw [ entry?, Option.bind_eq_bind, Option.bind_eq_some_iff] at he
  obtain ⟨index, -, he⟩ := he
  exact ⟨entry, List.mem_of_getElem? he, rfl⟩

/-- The standard environment may be used on a machine that has given out its identity. -/
theorem Environment.prelude_fine (sites : Nat → Site) {m : Machine} {identity : Nat}
    (hi : identity < m.identities) {entry : String × Value}
    (he : entry ∈ (prelude identity).entries) : entry.2.Fine sites m :=
  prelude_related (L := .same sites m) ⟨rfl, hi⟩ he

/-- A machine on which nothing has run, and on which the standard environment has an identity. -/
def Machine.primed : Machine := { blank with identities := 1 }

theorem Machine.primed_fine (sites : Nat → Site) : primed.Fine sites :=
  ⟨fun h => by simp [primed, blank] at h, nofun, fun h => by simp [primed, blank] at h⟩

/-! ## Probes -/

theorem Probe.script_orderly (p : Probe) (args : List Value) : (p.script args).Orderly := by
  cases p with
  | args | count | first => trivial
  | call => exact Value.apply_orderly _ _
  | text => exact (Value.toText_orderly _).bind fun _ => trivial
  | equal => exact (Value.equals_orderly _ _).bind fun _ => trivial
  | field =>
    unfold script
    dsimp only
    split
    · exact Value.select_orderly _ _ _
    · rfl
  | depth => exact fun _ => trivial
  | fail => rfl

theorem Probe.script_related {L : Link} (p : Probe) {vs vs' : List Value}
    (hs : Value.AllRelated L vs vs')
    (hp : L.Exact ∨ (p = .equal → (vs.getD 0 .unit).Apart (vs.getD 1 .unit))) :
    Script.Alike L (p.script vs) (p.script vs') := by
  have h0 := hs.getD 0
  have h1 := hs.getD 1
  cases p with
  | args => exact .done (.tuple hs)
  | count =>
    rw [script, script, hs.length_eq]
    exact .done (.int _)
  | first => exact .done h0
  | call => exact h0.apply (List.forall₂_drop 1 hs)
  | text =>
    refine h0.toText.bind fun _ _ ht => ?_
    subst ht
    exact .done (.str _)
  | equal =>
    refine (h0.equals h1 (hp.imp_right fun h => h rfl)).bind fun _ _ hr => ?_
    subst hr
    exact .done (.bool _)
  | field =>
    unfold script
    dsimp only
    generalize vs.getD 1 .unit = w, vs'.getD 1 .unit = w' at h1
    cases h1 with
    | str name => exact h0.select name .member
    | _ => exact .fail _
  | depth => exact .depth fun _ => .done (.int _)
  | fail => exact .fail _

namespace Host

/-- A host that offers all probes, and from which nothing can be loaded. -/
def offering (options : RunOptions) : Host where
  options := options
  functions := #[Probe.args, .count, .first, .call, .text, .equal, .field, .depth, .fail].map
    fun p _ => p.script
  loader? := none

/-- The functions of the host are probes, and numbers that it does not know do nothing. -/
theorem function_offering (options : RunOptions) (number : Nat) :
    (∃ p : Probe, (offering options).function number = p.script) ∨
      (offering options).function number = fun _ => .done .unit := by
  have hf (args : List Value) : (offering options).function number args =
      ((offering options).functions.getD number fun _ _ => .done .unit) options args := rfl
  rw [funext hf, Array.getD_eq_getD_getElem?, offering, Array.getElem?_map]
  cases (#[Probe.args, .count, .first, .call, .text, .equal, .field, .depth, .fail])[number]? with
  | none => exact .inr rfl
  | some p => exact .inl ⟨p, rfl⟩

theorem offering_fine (options : RunOptions) (P : Graph → Prop) (sites : Nat → Site) (m : Machine) :
    (offering options).Fine P sites m := by
  refine ⟨?_, nofun, nofun⟩
  intro L _ vs vs' hs number
  rcases function_offering options number with ⟨p, hp⟩ | hnone
  · rw [hp]
    exact p.script_related hs (.inl inferInstance)
  · rw [hnone]
    exact .done .unit

end Host

/-- The probe `call` of such a host. -/
def Native.calling : Native := ⟨"call", .onlyMember, ⟨[], 0, some .any⟩, .host 3⟩

/-- The standard environment with the probe `call`. -/
def Environment.offering : Environment where
  entries := (prelude 0).entries ++ [("call", .function (.native .calling))]
  standardCount := (prelude 0).standardCount

theorem Environment.offering_fine (sites : Nat → Site) {m : Machine} (hi : 0 < m.identities)
    {id : ValueId} {v : Value} (hv : offering.get? id = some v) : v.Fine sites m := by
  obtain ⟨entry, he, rfl⟩ := exists_entry_of_get? hv
  rcases List.mem_append.mp he with he | he
  · exact prelude_fine sites hi he
  · obtain rfl := List.mem_singleton.mp he
    exact .function (.native _)

end Dataflow
