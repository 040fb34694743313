import Dataflow.Proofs.Direct.Calls

/-!
# Requests and programs

Calls and loads are answered alike on both sides. A program brings a unit of its own to the machine,
and then its statements are those of a function without parameters.

* `Tandem.Together.note`: calls that are kept account of;
* `Tandem.Together.mapError`, `Tandem.Together.quietly`: what loading makes of an outcome;
* `Tandem.Tied.addImage`: a new unit on the machine;
* **`Tandem.Compiled.run`**: programs that were compiled;
* **`SourceHost.answers`**: requests.
-/

namespace Dataflow

open Run

namespace Tandem

variable {t : Tandem} {h : SourceHost} {h' : Host} {answer : Request → Evaluation Value}
  {answer' : Request → Run Value}

/-! ## Calls and loads -/

namespace Together

theorem ofExcept {k : Nat} {α : Type} (ht : t.Tied h h') (r : Except RunError α) :
    Together h h' k t (fun _ a b => a = b) (Evaluation.ofExcept r t.world)
      (Run.ofExcept r t.machine) := by
  cases r with
  | ok a => exact .pure ht rfl
  | error e => exact .fail ht e

/-- A call is kept account of in the evaluation only. -/
theorem note {k : Nat} {α β : Type} {R : Tandem → α → β → Prop} {f : Function} {args : List Value}
    {x : Evaluation α} {y : Run β}
    (hx : h.Indifferent f args → Together h h' k t R (x t.world) (y t.machine)) :
    Together h h' k t R ((Evaluation.note f args >>= fun _ => x) t.world) (y t.machine) :=
  fun hc => hx (hc (f, args) List.mem_cons_self) fun c hmem => hc c (List.mem_cons_of_mem _ hmem)

/-- Errors are taken for others on both sides. -/
theorem mapError {k : Nat} {α β : Type} {R : Tandem → α → β → Prop} {x : Evaluation α} {y : Run β}
    {f : RunError → RunError} {handle : Stop → Run β}
    (hx : Together h h' k t R (x t.world) (y t.machine))
    (hf : ∀ e, handle (.error e) = Run.fail (f e)) (he : handle .exhausted = throw .exhausted) :
    Together h h' k t R (x.mapError f t.world) ((tryCatch y handle : Run β) t.machine) := by
  simp only [Evaluation.mapError, tryCatch, tryCatchThe, MonadExceptOf.tryCatch, EStateM.tryCatch]
  generalize x t.world = r at hx
  generalize y t.machine = r' at hx
  obtain ⟨calls, r⟩ := r
  cases r with
  | ok a w =>
    intro hc
    cases hx hc with
    | ok t' hle ht hr => exact .ok t' hle ht hr
  | error e w =>
    cases e with
    | error e =>
      intro hc
      cases hx hc with
      | error t' _ hle ht =>
        dsimp only
        rw [hf]
        exact .error t' (.error (f e)) hle ht
    | exhausted =>
      intro hc
      cases hx hc with
      | error t' _ hle ht =>
        dsimp only
        rw [he]
        exact .error t' .exhausted hle ht

/-- What is printed is left out on both sides. -/
theorem quietly (ht : t.Tied h h') {x : Evaluation Value} {y : Run Value}
    (hxy : ∀ t', Le t.machine.activations.size t t' → t'.Tied h h' →
      Together h h' t'.machine.activations.size t' (fun t' v v' => Value.Related t'.link v v')
        (x t'.world) (y t'.machine)) :
    Together h h' t.machine.activations.size t (fun t' v v' => Value.Related t'.link v v')
      (Evaluation.quietly x t.world) (Run.quietly y t.machine) := by
  obtain ⟨hle₁, ht₁⟩ := ht.of_same (w := { t.world with printed := #[] })
    (m := { t.machine with printed := #[] }) rfl (Nat.le_refl _) rfl rfl (Nat.le_refl _) rfl ht.loads
  have restored {t₂ : Tandem} (hle₂ : Le t.machine.activations.size
      { t with world := { t.world with printed := #[] },
               machine := { t.machine with printed := #[] } } t₂) (ht₂ : t₂.Tied h h') :=
    ht₂.of_same (w := { t₂.world with printed := t.world.printed })
      (m := { t₂.machine with printed := t.machine.printed }) rfl (Nat.le_refl _) rfl rfl
      (Nat.le_refl _) ht.printed ht₂.loads
  have hout := hxy _ hle₁ ht₁
  rw [Evaluation.quietly, Run.quietly]
  dsimp only at hout ⊢
  generalize x { t.world with printed := #[] } = r at hout
  generalize y { t.machine with printed := #[] } = r' at hout
  obtain ⟨calls, r⟩ := r
  cases r with
  | ok a w =>
    intro hc
    cases hout hc with
    | ok t₂ hle₂ ht₂ hr =>
      obtain ⟨hle₃, ht₃⟩ := restored hle₂ ht₂
      exact .ok _ (hle₁.trans (hle₂.trans (hle₃.mono hle₂.grows.size_le))) ht₃ (hr.mono hle₃.link)
  | error e w =>
    intro hc
    cases hout hc with
    | error t₂ _ hle₂ ht₂ =>
      obtain ⟨hle₃, ht₃⟩ := restored hle₂ ht₂
      exact .error _ e (hle₁.trans (hle₂.trans (hle₃.mono hle₂.grows.size_le))) ht₃

end Together

/-! ## Programs -/

/-- The machine has a unit more. -/
def withImage (t : Tandem) (image : Image) : Tandem :=
  { t with machine := { t.machine with images := t.machine.images.push image } }

/-- What is built into a program on the run's side is fine. -/
theorem Tied.fine_environment (ht : t.Tied h h') {e e' : Environment} (he : e.Related t.link e')
    {id : ValueId} {v : Value} (hv : e'.get? id = some v) : v.Fine t.sites t.machine := by
  have hright := SymbolsRelated.right ht.same.1 ht.same.2.1 ht.same.2.2 he
  obtain ⟨s, hs, rfl⟩ := Option.map_eq_some_iff.mp hv
  obtain ⟨i, -, hi⟩ := Option.bind_eq_some_iff.mp hs
  have hmem := List.mem_of_getElem? hi
  generalize e'.entries = ss at hright hmem
  clear he hv hs hi
  induction ss with
  | nil => cases hmem
  | cons s' ss ih =>
    cases hright with
    | cons _ hv hs =>
      rcases List.mem_cons.mp hmem with rfl | hmem
      · exact hv
      · exact ih hs hmem

/-- The machine gets a unit that the evaluation knows nothing of. -/
theorem Tied.addImage (ht : t.Tied h h') {image : Image}
    (hi : ∀ {id v}, image.environment.get? id = some v → v.Fine t.sites t.machine) :
    Le t.machine.activations.size t (t.withImage image) ∧ (t.withImage image).Tied h h' := by
  have hle : Le t.machine.activations.size t (t.withImage image) :=
    ⟨.addImage image, fun hp => hp, fun hp => hp, Nat.le_refl _, fun hd => hd, fun _ _ => rfl,
      fun _ _ => rfl⟩
  exact ⟨hle, ht.of_le hle rfl rfl rfl (ht.fine.addImage hi) ht.pairs_lt ht.copies_lt
    ht.printed ht.loads⟩

theorem image_withImage (t : Tandem) (image : Image) :
    (t.withImage image).machine.image t.machine.images.size = image := by
  show (t.machine.images.push image).getD t.machine.images.size default = image
  rw [Array.getD_eq_getD_getElem?, Array.getElem?_push_size, Option.getD_some]

/-- **Programs run as they are evaluated.** -/
theorem Compiled.run {s : Source} {p : Program} (hs : t.Compiled s p)
    (ha : Answers h h' answer answer') (ht : t.Tied h h') :
    Together h h' t.machine.activations.size t (fun t' v v' => Value.Related t'.link v v')
      (s.evaluate answer t.world) (p.run answer' t.machine) := by
  obtain ⟨n, hlaid, hlabels, hrenders⟩ := hs.laid
  have hfine {id : ValueId} {v : Value} (hv : p.image.environment.get? id = some v) :
      v.Fine t.sites t.machine := ht.fine_environment hs.environment hv
  obtain ⟨hle, ht'⟩ := ht.addImage hfine
  have himage := t.image_withImage p.image
  have hunit : t.machine.images.size < (t.withImage p.image).machine.images.size := by
    show _ < (t.machine.images.push _).size
    rw [Array.size_push]
    exact Nat.lt_succ_self _
  have hprepared : (t.withImage p.image).Prepared ⟨[], s.root, s.labels, [], s.environment⟩ p.graph
      t.machine.images.size none n ⟨[], [], none⟩ := by
    refine ⟨hlaid, ?_, hlabels, hunit, hs.few, ?_, .nil⟩
    · rw [himage]
      exact hrenders
    · rw [himage]
      exact SymbolsRelated.mono hle.link hs.environment
  have hparams : p.graph.params.toNat = 0 := by
    rw [hlaid.params]
    cases hrenders with
    | intro hids => exact hids
  have hcallable : Callable (fun _ => True) (t.withImage p.image).sites
      (t.withImage p.image).machine p.graph t.machine.images.size none [] :=
    ⟨hlaid.built, hparams.symm, .nil, hunit, fun _ => ⟨hs.first, trivial⟩, nofun⟩
  exact .later hle (Nat.le_refl _) (hprepared.run ha ht' hcallable nofun .nil 0)

/-! ## Requests -/

/-- A function is called that was declared before. -/
theorem Stands.run {c c' : Closure} (hc : t.Stands c c') (ha : Answers h h' answer answer')
    (ht : t.Tied h h') {args args' : List Value} (hargs : Value.AllRelated t.link args args')
    (hlength : args'.length = c'.graph.params.toNat) (depth : Nat) :
    ∃ d, t.world.declared? c.scope c.unit = some d ∧
      Together h h' t.machine.activations.size t (fun t' v v' => Value.Related t'.link v v')
        (d.run answer depth args t.world)
        (c'.graph.run answer' c'.unit depth (some c'.scope) args' t.machine) := by
  obtain ⟨g, outer, hlevels, hblock, hintroduced⟩ := hc.level
  obtain ⟨d, hd⟩ := Option.isSome_iff_exists.mp (hintroduced c.unit .refl)
  obtain ⟨g', outer', id, body, n, T, hlevels', hblock', hprepared⟩ := ht.declared hd
  obtain ⟨rfl, rfl⟩ := List.cons_eq_cons.mp (hlevels.symm.trans hlevels')
  obtain ⟨rfl, rfl⟩ := (Block.function.injEq ..).mp (Option.some.inj (hblock.symm.trans hblock'))
  have hunit : (t.sites c.scope).unit = c'.unit := by
    rw [← hc.fine.unit, hc.scope]
  rw [hunit] at hprepared
  refine ⟨d, hd, ?_⟩
  rw [hc.scope]
  refine hprepared.run ha ht
    (hc.scope ▸ hc.fine.callable ht.fine (ht.allFine_of_related hargs) hlength) ?_ hargs depth
  rintro p ⟨⟩
  exact ⟨g, outer, c.unit, c'.id, hlevels, hblock, hintroduced⟩

end Tandem

open Tandem

/-- **Requests are answered alike.** -/
theorem SourceHost.answers (h : SourceHost) (h' : Host) (fuel depth : Nat) :
    Answers h h' (h.answer fuel depth) (h'.answer fuel depth) := by
  induction fuel generalizing depth with
  | zero =>
    intro t r r' ht _
    exact .error ht .exhausted
  | succ fuel ih =>
    intro t r r' ht hr
    cases hr with
    | @call f f' vs vs' hf hs =>
      have hname := hf.name_eq
      cases hf with
      | native n =>
        rw [SourceHost.answer, Host.answer, ← Signature.check_eq _ _ hs]
        refine .note fun hindifferent => (Together.ofExcept ht _).bind fun t' _ _ hle ht' _ => ?_
        refine .later (.refl _ _) hle.grows.size_le
          (Answers.script (ih depth) depth ht' fun {L} hL => ?_)
        have hs' := Value.allRelated_mono (hle.link.trans hL) hs
        rw [SourceHost.scriptOf, Host.scriptOf]
        cases hn : n.body with
        | builtin b => exact b.script_related hs'
        | host number =>
          rw [← ht.serves.function_eq]
          exact hindifferent number hn hs'
      | method m hi hv =>
        rw [SourceHost.answer, Host.answer, ← Signature.check_eq _ _ hs, ← hname]
        refine .note fun hindifferent => (Together.ofExcept ht _).bind fun t' _ _ hle ht' _ => ?_
        refine .later (.refl _ _) hle.grows.size_le
          (Answers.script (ih depth) depth ht' fun {L} hL => ?_)
        have hL' := hle.link.trans hL
        exact m.script_related (hv.mono hL') (Value.allRelated_mono hL' hs) (.inr hindifferent)
      | @closure i i' c c' hi hc =>
        have hlength := hs.length_eq
        rw [SourceHost.answer, Host.answer_closure, ← hname, ← hc.params, ← hlength,
          Host.maxDepth, ht.serves.options]
        split
        case isFalse => exact .fail ht _
        case isTrue hcount =>
          split
          case isTrue => exact .fail ht _
          case isFalse =>
            obtain ⟨d, hd, hrun⟩ := hc.run (ih (depth + 1)) ht hs
              (by rw [← hlength, hcount]) (depth + 1)
            rw [Evaluation.bind_ok (show Evaluation.declared? c.scope c.unit t.world =
              ([], .ok (some d) t.world) by rw [← hd]; rfl)]
            exact hrun
    | load target =>
      have hloader := ht.serves.loader
      generalize hl : h.loader? = l at hloader
      generalize hl' : h'.loader? = l' at hloader
      cases hloader with
      | none =>
        rw [SourceHost.answer, Host.answer, hl, hl']
        exact .fail ht _
      | @some loader loader' hloads =>
        rw [SourceHost.answer, Host.answer, hl, hl']
        refine (ht.noteLoad target).bind fun t' _ _ hle ht' _ => ?_
        refine .later (.refl _ _) hle.grows.size_le ?_
        have hsays := hloads target
        generalize loader target = l at hsays
        generalize loader' target = l' at hsays
        cases hsays with
        | value hv => exact .pure ht' (hv.mono hle.link)
        | failed message => exact .fail ht' _
        | dropped => exact .fail ht' _
        | @program s p hp quiet =>
          have hrun (t'' : Tandem) (hle' : Le t'.machine.activations.size t' t'')
              (ht'' : t''.Tied h h') := (hle'.compiled (hle.compiled hp)).run (ih 0) ht''
          refine .mapError ?_ (fun _ => rfl) rfl
          cases quiet with
          | false => exact hrun t' (.refl _ t') ht'
          | true => exact .quietly ht' hrun

end Dataflow
