import Dataflow.Proofs.Direct.Mentions
import Dataflow.Proofs.Direct.Requests
import Dataflow.Proofs.Run.Surroundings
import Dataflow.Proofs.Value.Equality

/-!
# Compiling preserves meaning

A program in which functions are declared before statements mention them comes to the same whether
its tree is evaluated in the order of its text or it is compiled, built and run: the same is printed
and loaded, the same errors are raised, and the values are related.

* `Environment.Related.idOf?_eq`: related environments give the same numbers to names;
* `Node.compiled`: compiled programs are related to their trees;
* `Tandem.start`: both sides at the start;
* **`Node.compile_preserves`**: a compiled program comes to what its tree comes to.
-/

namespace Dataflow

open Run

/-! ## Environments -/

theorem SymbolsRelated.map_fst_eq {L : Link} {ss ss' : List (String × Value)}
    (h : SymbolsRelated L ss ss') : ss'.map Prod.fst = ss.map Prod.fst := by
  induction ss generalizing ss' with
  | nil =>
    cases h
    rfl
  | cons s ss ih =>
    cases h with
    | cons name hv hs => exact congrArg (name :: ·) (ih hs)

namespace Environment.Related

variable {L : Link} {e e' : Environment}

theorem size_eq (h : e.Related L e') : e'.size = e.size := by
  have hlength := congrArg List.length (SymbolsRelated.map_fst_eq h)
  rwa [List.length_map, List.length_map] at hlength

theorem idOf?_eq (h : e.Related L e') : e'.idOf? = e.idOf? := by
  funext name
  have hfind (ss : List (String × Value)) : ss.findIdx? (fun entry => entry.1 == name) =
      (ss.map Prod.fst).findIdx? (· == name) := by
    rw [List.findIdx?_map]
    rfl
  rw [idOf?, idOf?, hfind, hfind, SymbolsRelated.map_fst_eq h]

end Environment.Related

/-! ## Programs -/

namespace Node

/-- In every scope of a compiled program, functions have different names. -/
theorem nodup_functionNames {builtin : String → Option ValueId} {root : Node} {code : Code}
    (hc : root.compile builtin = .ok code) : (functionNames root.bodyItems).Nodup ∧
      ∀ span name params body, .function span name params body ∈ root.subtrees →
        (functionNames body.bodyItems).Nodup := by
  obtain ⟨hscoped, -⟩ := (compile_isOk_iff builtin root).mp ⟨code, hc⟩
  refine ⟨(List.nodup_append.mp hscoped.distinct).1, fun span name params body hmem => ?_⟩
  have hd := hscoped.distinctWithin span name params body hmem
  exact (List.nodup_append.mp (List.nodup_append.mp hd).1).2.1

/-- A compiled program is related to its tree, if its functions are declared first. -/
theorem compiled {t : Tandem} {e e' : Environment} (he : e.Related t.link e') {root : Node}
    {code : Code} (hw : root.weight < 2 ^ 31) (hs : e.size ≤ 2 ^ 31)
    (hc : root.compile e'.idOf? = .ok code) (ho : root.DeclaresFirst) :
    ∃ n p, root.record e'.idOf? = .ok n ∧ Program.ofCode code e' = .ok p ∧
      t.Compiled ⟨root, n.labels, e⟩ p := by
  have hs' : e'.size ≤ 2 ^ 31 := he.size_eq ▸ hs
  obtain ⟨n, g, hn, -, hg, hagrees⟩ := numbering_agrees hw hs' hc
  obtain ⟨n', hn', hrenders⟩ := renders_of_compile hw hs' hc
  obtain rfl : n = n' := Except.ok.inj (hn.symm.trans hn')
  obtain ⟨hfirst, hroom⟩ := compile_roomy hw hs' hc hg
  have hcovers : n.Covers g :=
    ⟨hagrees, (Graph.built_of_build hg).1, hroom, hrenders.hoisted_eq⟩
  obtain ⟨hd, hwithin⟩ := nodup_functionNames hc
  have hordered := hrenders.declaredFirst (fun hb => (Environment.get?_of_idOf? hs' hb).1) hcovers
    (fun hl => by cases hl) hd ho.outermost fun span name params body hmem =>
      ⟨hwithin span name params body hmem, ho.within hmem⟩
  refine ⟨n, ⟨code, g, e'⟩, hn, by rw [Program.ofCode, hg], ⟨n, ⟨hcovers, hordered⟩, rfl, ?_⟩,
    hfirst, hs, he⟩
  have hholds : (fun c k => code.constants[c.toNat]? = some k) =
      (Program.mk code g e').image.Holds := by
    funext c k
    rw [Image.Holds, Program.image, List.getElem?_toArray]
  rwa [he.idOf?_eq, hholds] at hrenders

end Node

/-! ## The start -/

namespace Tandem

/-- Both sides at the start, where some identities have been given out before, the same on both. -/
def start (identities : Nat) : Tandem where
  pairs i i' := i = i' ∧ i < identities
  pairs_iff := by
    rintro i _ j _ ⟨rfl, -⟩ ⟨rfl, -⟩
    rfl
  copies i i' := i = i' ∧ i < identities
  copies_eq := by
    rintro i _ j ⟨rfl, -⟩ ⟨rfl, -⟩
    rfl
  sites := default
  world := ⟨#[], identities, #[], #[]⟩
  machine := ⟨#[], #[], identities, #[], #[]⟩

theorem tied_start {identities : Nat} {h : SourceHost} {h' : Host}
    (hs : (start identities).Serves h h') : (start identities).Tied h h' := by
  have hnone {α : Type} {scope : Nat} {x : α} : (#[] : Array α)[scope]? ≠ some x := by simp
  refine ⟨⟨fun ha => absurd ha hnone, fun hlt => absurd hlt (Nat.not_lt_zero _),
    fun hi => absurd hi hnone⟩, rfl, ?_, ?_, rfl, rfl, fun {scope j d} hd => ?_,
    fun ha => absurd ha hnone, hs⟩
  · rintro i _ ⟨rfl, hi⟩
    exact ⟨hi, hi⟩
  · rintro i _ ⟨rfl, hi⟩
    exact ⟨hi, hi⟩
  · obtain ⟨ds, hds, -⟩ := Option.bind_eq_some_iff.mp hd
    exact absurd hds hnone

end Tandem

/-! ## Preservation -/

/-- **A compiled program comes to what its tree comes to**, as long as the evaluation of the tree does
not compare a function with itself. -/
theorem Node.compile_preserves (h : SourceHost) (h' : Host) {t : Tandem} (ht : t.Tied h h')
    {e e' : Environment} (he : e.Related t.link e') {root : Node} {code : Code}
    (hw : root.weight < 2 ^ 31) (hs : e.size ≤ 2 ^ 31) (hc : root.compile e'.idOf? = .ok code)
    (ho : root.DeclaresFirst) :
    ∃ n p, root.record e'.idOf? = .ok n ∧ Program.ofCode code e' = .ok p ∧ ∀ fuel,
      h.AllIndifferent (Source.evaluate (h.answer fuel 0) ⟨root, n.labels, e⟩ t.world).1 →
      Tandem.Outcome h h' t.machine.activations.size t (fun t' v v' => Value.Related t'.link v v')
        (Source.evaluate (h.answer fuel 0) ⟨root, n.labels, e⟩ t.world).2
        (p.run (h'.answer fuel 0) t.machine) := by
  obtain ⟨n, p, hn, hp, hcompiled⟩ := compiled he hw hs hc ho
  exact ⟨n, p, hn, hp, fun fuel => hcompiled.run (h.answers h' fuel 0) ht⟩

/-! ### Programs with functions -/

/-- A host of evaluations that offers all probes, and from which nothing can be loaded. -/
def SourceHost.offering (options : RunOptions) : SourceHost :=
  ⟨options, (Host.offering options).functions, none⟩

theorem SourceHost.function_offering_three (options : RunOptions) :
    (offering options).function 3 = Probe.call.script := by
  funext args
  simp [function, offering, Host.offering]

theorem Tandem.tied_offering (options : RunOptions) :
    (start 1).Tied (.offering options) (.offering options) := tied_start ⟨rfl, rfl, .none⟩

theorem Environment.offering_related : offering.Related (Tandem.start 1).link offering := by
  refine .self fun s hs => ?_
  rcases List.mem_append.mp hs with hs | hs
  · exact prelude_related (L := (Tandem.start 1).link) ⟨rfl, Nat.one_pos⟩ hs
  · obtain rfl := List.mem_singleton.mp hs
    exact .function (.native _)

/-- The statements `a = 1`, `fn f(x): g`, `fn g(y): a` and `println(call(f(2), 3) == a)`. -/
def Node.siblings : Node :=
  .list default [.assign default ["a"] (.literal default (.int 1)),
    .function default "f" ["x"] (.ident default "g"),
    .function default "g" ["y"] (.ident default "a"),
    .call default (.ident default "println") [.call default (.select default
      (.call default (.ident default "call") [.call default (.ident default "f")
        [.literal default (.int 2)], .literal default (.int 3)]) "==" .binary) [.ident default "a"]]]

/-- The unit of these statements. -/
def Code.siblings : Code :=
  ⟨.zero, [.ofInt 1, .ofInt 2, .ofInt 3, .ofText "=="],
    [.constant 0, .enter 1, .copy 1, .leave, .enter 1, .copy 2, .leave, .constant 1, .argument 3,
      .call 0, .constant 2, .argument 4, .argument 5, .call (-11), .field 6 3 .binary, .argument 2,
      .call 7, .argument 8, .call (-5)]⟩

/-- The call stands behind the function that it calls and the one that this function mentions. -/
theorem Node.declaresFirst_siblings : Node.siblings.DeclaresFirst := by
  refine ⟨ordered_of_front (siblings.bodyItems.take 3) (siblings.bodyItems.drop 3) rfl
    fun item hmem hi name own hm => ?_, fun {span name params body} hmem => ordered_of_no_functions ?_⟩
  · simp only [siblings, bodyItems, List.take_succ_cons, List.take_zero, List.mem_cons,
      List.not_mem_nil, or_false] at hmem
    rcases hmem with rfl | rfl | rfl
    · exact hm
    · cases hi
    · cases hi
  · simp only [siblings, subtrees, subtreesAll, List.append_nil, List.cons_append,
      List.nil_append, List.mem_cons, List.not_mem_nil, or_false, reduceCtorEq, false_or,
      Node.function.injEq] at hmem
    rcases hmem with ⟨-, -, -, rfl⟩ | ⟨-, -, -, rfl⟩ <;> rfl

mutual

/-- A value without functions is not compared with itself as a function is. -/
theorem Value.apart_of_contains (v w : Value) (h : v.contains .function = false) : v.Apart w := by
  cases v with
  | tuple as =>
    cases w with
    | tuple bs =>
      rw [Value.Apart]
      exact allApart_of_containsAny as bs h
    | _ => trivial
  | function f => cases h
  | _ => trivial

theorem Value.allApart_of_containsAny (vs ws : List Value)
    (h : containsAny .function vs = false) : AllApart vs ws := by
  cases vs with
  | nil => trivial
  | cons v vs =>
    cases ws with
    | nil => trivial
    | cons w ws =>
      rw [containsAny, Bool.or_eq_false_iff] at h
      exact ⟨Value.apart_of_contains v w h.1, allApart_of_containsAny vs ws h.2⟩

end

/-- Whether a call is one of `println`, of the function of the host that calls what it is given, or of
a method of a value without functions. -/
def Function.isHarmless : Function → Bool
  | .native n => n.body == .builtin .println || n.body == .host 3
  | .method _ receiver _ => !receiver.contains .function
  | .closure .. => true

theorem SourceHost.indifferent_of_isHarmless {options : RunOptions} {f : Function}
    (h : f.isHarmless = true) (args : List Value) : (offering options).Indifferent f args := by
  cases f with
  | native n =>
    intro number hn L args' hs
    rw [Function.isHarmless, hn] at h
    obtain rfl : number = 3 := by simpa using h
    rw [function_offering_three]
    exact Probe.script_related .call hs (.inr nofun)
  | method identity receiver m =>
    rw [Function.isHarmless, Bool.not_eq_true'] at h
    exact fun _ => receiver.apart_of_contains _ h
  | closure identity c => trivial

/-- The evaluation calls `g` by way of the host, compares two numbers and prints a text. -/
theorem Node.evaluate_siblings {n : Numbering}
    (hn : Node.siblings.record Environment.offering.idOf? = .ok n) : ∃ calls w,
    Source.evaluate ((SourceHost.offering ⟨64, .sequential⟩).answer 3 0)
      ⟨.siblings, n.labels, .offering⟩ (Tandem.start 1).world = (calls, .ok .unit w) ∧
    (SourceHost.offering ⟨64, .sequential⟩).AllIndifferent calls ∧ w.printed = #["true\n"] := by
  have h : (Node.siblings.record Environment.offering.idOf?).toOption.any (fun n =>
      (Source.evaluate ((SourceHost.offering ⟨64, .sequential⟩).answer 3 0)
        ⟨.siblings, n.labels, .offering⟩ (Tandem.start 1).world).1.all (·.1.isHarmless) &&
      okWith (fun v w => v.hostEq .unit && w.printed == #["true\n"])
        (Source.evaluate ((SourceHost.offering ⟨64, .sequential⟩).answer 3 0)
          ⟨.siblings, n.labels, .offering⟩ (Tandem.start 1).world).2) = true := by
    decide +kernel
  rw [hn, Except.toOption, Option.any_some] at h
  generalize Source.evaluate ((SourceHost.offering ⟨64, .sequential⟩).answer 3 0)
    ⟨.siblings, n.labels, .offering⟩ (Tandem.start 1).world = r at h ⊢
  obtain ⟨calls, r⟩ := r
  obtain ⟨hcalls, hends⟩ := Bool.and_eq_true_iff.mp h
  obtain ⟨v, w, hrun, hw⟩ := exists_of_okWith hends
  rw [Bool.and_eq_true, Value.hostEq_unit_iff, beq_iff_eq] at hw
  obtain ⟨rfl, hprinted⟩ := hw
  refine ⟨calls, w, congrArg (Prod.mk calls) hrun, fun c hc => ?_, hprinted⟩
  exact SourceHost.indifferent_of_isHarmless (List.all_eq_true.mp hcalls c hc) c.2

/-- Both sides print that the two numbers are equal. -/
theorem Node.compile_preserves_siblings : Node.siblings.DeclaresFirst ∧
    ∃ n p, Node.siblings.record Environment.offering.idOf? = .ok n ∧
      Program.ofCode .siblings .offering = .ok p ∧
      (∀ fuel, (SourceHost.offering ⟨64, .sequential⟩).AllIndifferent
          (Source.evaluate ((SourceHost.offering ⟨64, .sequential⟩).answer fuel 0)
            ⟨.siblings, n.labels, .offering⟩ (Tandem.start 1).world).1 →
        Tandem.Outcome (.offering ⟨64, .sequential⟩) (.offering ⟨64, .sequential⟩) 0 (.start 1)
          (fun t' v v' => Value.Related t'.link v v')
          (Source.evaluate ((SourceHost.offering ⟨64, .sequential⟩).answer fuel 0)
            ⟨.siblings, n.labels, .offering⟩ (Tandem.start 1).world).2
          (p.run ((Host.offering ⟨64, .sequential⟩).answer fuel 0) .primed)) ∧
      ∃ m, p.run ((Host.offering ⟨64, .sequential⟩).answer 3 0) .primed = .ok .unit m ∧
        m.printed = #["true\n"] := by
  have hcode : Node.siblings.compile Environment.offering.idOf? = .ok .siblings := by
    decide +kernel
  obtain ⟨n, p, hn, hp, hrun⟩ := Node.compile_preserves (.offering ⟨64, .sequential⟩)
    (.offering ⟨64, .sequential⟩) (Tandem.tied_offering _) Environment.offering_related (by decide)
    (by decide) hcode Node.declaresFirst_siblings
  obtain ⟨calls, w, he, hindifferent, hw⟩ := Node.evaluate_siblings hn
  refine ⟨Node.declaresFirst_siblings, n, p, hn, hp, hrun, ?_⟩
  have hout := hrun 3
  rw [he] at hout
  have hends := hout hindifferent
  generalize hr : p.run ((Host.offering ⟨64, .sequential⟩).answer 3 0) (Tandem.start 1).machine = r
    at hends
  cases hends with
  | @ok t' _ v' _ ht hv =>
    cases hv
    exact ⟨t'.machine, hr, ht.printed.trans hw⟩

/-- The statements `fn f(): 1` and `println(f == f)`. -/
def Node.selfsame : Node :=
  .list default [.function default "f" [] (.literal default (.int 1)),
    .call default (.ident default "println")
      [.call default (.select default (.ident default "f") "==" .binary) [.ident default "f"]]]

/-- The unit of these statements. -/
def Code.selfsame : Code :=
  ⟨.zero, [.ofInt 1, .ofText "=="], [.enter 0, .constant 0, .leave, .field 0 1 .binary, .argument 0,
    .call 1, .argument 2, .call (-5)]⟩

theorem Node.declaresFirst_selfsame : Node.selfsame.DeclaresFirst := by
  refine ⟨ordered_of_front (selfsame.bodyItems.take 1) (selfsame.bodyItems.drop 1) rfl
    fun item hmem hi => ?_, fun {span name params body} hmem => ordered_of_no_functions ?_⟩
  · obtain rfl := List.mem_singleton.mp hmem
    cases hi
  · simp only [selfsame, subtrees, subtreesAll, List.append_nil, List.cons_append,
      List.nil_append, List.mem_cons, List.not_mem_nil, or_false, reduceCtorEq, false_or,
      Node.function.injEq] at hmem
    obtain ⟨-, -, -, rfl⟩ := hmem
    rfl

/-- **A program that does not keep its meaning**: a function equals itself when the tree is evaluated,
and differs from itself when the compiled program runs, which reads the function twice. -/
theorem Node.compile_changes_selfsame : Node.selfsame.DeclaresFirst ∧
    Node.selfsame.compile Environment.offering.idOf? = .ok .selfsame ∧
    ∃ n p calls w m, Node.selfsame.record Environment.offering.idOf? = .ok n ∧
      Program.ofCode .selfsame .offering = .ok p ∧
      Source.evaluate ((SourceHost.offering ⟨64, .sequential⟩).answer 2 0)
        ⟨.selfsame, n.labels, .offering⟩ (Tandem.start 1).world = (calls, .ok .unit w) ∧
      p.run ((Host.offering ⟨64, .sequential⟩).answer 2 0) .primed = .ok .unit m ∧
      w.printed = #["true\n"] ∧ m.printed = #["false\n"] := by
  have hcode : Node.selfsame.compile Environment.offering.idOf? = .ok .selfsame := by
    decide +kernel
  have h : (Node.selfsame.record Environment.offering.idOf?).toOption.any (fun n =>
      (Program.ofCode .selfsame .offering).toOption.any fun p =>
        okWith (fun v w => v.hostEq .unit && w.printed == #["true\n"])
          (Source.evaluate ((SourceHost.offering ⟨64, .sequential⟩).answer 2 0)
            ⟨.selfsame, n.labels, .offering⟩ (Tandem.start 1).world).2 &&
        okWith (fun v m => v.hostEq .unit && m.printed == #["false\n"])
          (p.run ((Host.offering ⟨64, .sequential⟩).answer 2 0) .primed)) = true := by
    decide +kernel
  obtain ⟨n, p, hn, hp, -⟩ := Node.compiled Environment.offering_related (by decide) (by decide)
    hcode Node.declaresFirst_selfsame
  rw [hn, hp, Except.toOption, Except.toOption, Option.any_some, Option.any_some] at h
  generalize hr : Source.evaluate ((SourceHost.offering ⟨64, .sequential⟩).answer 2 0)
    ⟨.selfsame, n.labels, .offering⟩ (Tandem.start 1).world = r at h
  obtain ⟨calls, r⟩ := r
  obtain ⟨htree, hcompiled⟩ := Bool.and_eq_true_iff.mp h
  obtain ⟨v, w, he, hw⟩ := exists_of_okWith htree
  obtain ⟨v', m, hrun, hm⟩ := exists_of_okWith hcompiled
  rw [Bool.and_eq_true, Value.hostEq_unit_iff, beq_iff_eq] at hw hm
  obtain ⟨rfl, hw⟩ := hw
  obtain ⟨rfl, hm⟩ := hm
  exact ⟨Node.declaresFirst_selfsame, hcode, n, p, calls, w, m, hn, hp,
    hr.trans (congrArg (Prod.mk calls) he), hrun, hw, hm⟩

end Dataflow
