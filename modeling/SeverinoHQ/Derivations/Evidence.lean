/-
# A value is what its evidence makes it

Running code again, with nothing remembered and nothing cached, over tables and
a clock that stand still: `Evaluates`. The invariant of this module holds in
every run, without a condition: whatever a thread is loading, computing,
remembering or has cached is what the code evaluates to over any tables and at
any moment that agree with the items collected beside it. So the items of a
value are all it rests on.
-/

import SeverinoHQ.Derivations.Model

namespace SeverinoHQ.Derivations

open SeverinoHQ.Math

variable {V : Type}

/-! ## Running again -/

/-- Code run on tables and a clock that stand still. -/
inductive Evaluates (env : Environment V) (rows : String → V) (clock : Int) :
    Prog V → V → Prop where
  | ret (value : V) : Evaluates env rows clock (.ret value) value
  | read {table : String} {resume : V → Prog V} {value : V}
      (h : Evaluates env rows clock (resume (rows table)) value) :
      Evaluates env rows clock (.read table resume) value
  | clock {question : Question} {resume : Reading → Prog V} {value : V}
      (hraises : question.raises = false)
      (h : Evaluates env rows clock (resume (question.reading env.zone clock)) value) :
      Evaluates env rows clock (.clock question resume) value
  | once {name : String} {resume : V → Prog V} {loaded value : V}
      (hloaded : Evaluates env rows clock (env.loader name) loaded)
      (h : Evaluates env rows clock (resume loaded) value) :
      Evaluates env rows clock (.once name resume) value
  | scope {apart : Bool} {body : Prog V} {resume : V → Prog V} {inner value : V}
      (hinner : Evaluates env rows clock body inner)
      (h : Evaluates env rows clock (resume inner) value) :
      Evaluates env rows clock (.scope apart body resume) value
  | ask {derivation variant : String} {resume : V → Prog V} {answer value : V}
      (hanswer : Evaluates env rows clock ((env.derivation derivation).compute variant) answer)
      (h : Evaluates env rows clock (resume answer) value) :
      Evaluates env rows clock (.ask derivation variant resume) value

/-- Running again gives one value. -/
theorem Evaluates.unique {env : Environment V} {rows : String → V} {clock : Int} {prog : Prog V}
    {first second : V} (hfirst : Evaluates env rows clock prog first)
    (hsecond : Evaluates env rows clock prog second) : first = second := by
  induction hfirst generalizing second with
  | ret value =>
      cases hsecond
      rfl
  | read _ ih =>
      cases hsecond with
      | read h => exact ih h
  | clock _ _ ih =>
      cases hsecond with
      | clock _ h => exact ih h
  | once _ _ ihloaded ih =>
      cases hsecond with
      | once hloaded h => exact ih (ihloaded hloaded ▸ h)
  | scope _ _ ihinner ih =>
      cases hsecond with
      | scope hinner h => exact ih (ihinner hinner ▸ h)
  | ask _ _ ihanswer ih =>
      cases hsecond with
      | ask hanswer h => exact ih (ihanswer hanswer ▸ h)

/-- Tables and a moment agree with an item. -/
def Item.agrees (env : Environment V) (rows : String → V) (clock : Int) : Item V → Prop
  | .read table _ found => rows table = found
  | .asked question earlier => question.reading env.zone clock = question.reading env.zone earlier
  | .expiry _ => True

/-- Tables and a moment agree with everything collected. -/
def Agrees (env : Environment V) (items : List (Item V)) (rows : String → V) (clock : Int) : Prop :=
  ∀ item ∈ items, item.agrees env rows clock

theorem agrees_append {env : Environment V} {first second : List (Item V)} {rows : String → V}
    {clock : Int} : Agrees env (first ++ second) rows clock ↔
      Agrees env first rows clock ∧ Agrees env second rows clock := by
  simp [Agrees, or_imp, forall_and]

/-- The evidence makes the code evaluate to the value. -/
def Explains (env : Environment V) (items : List (Item V)) (prog : Prog V) (value : V) : Prop :=
  ∀ rows clock, Agrees env items rows clock → Evaluates env rows clock prog value

/-! ## What a thread has in hand -/

/-- The projections a thread will come back to. -/
def savedScopes : List (Activation V) → List (Scope V)
  | [] => []
  | .block (some (some scope)) _ :: rest => scope :: savedScopes rest
  | _ :: rest => savedScopes rest

/-- Everything the projections of a thread remember. -/
def Thread.memos (thread : Thread V) : List (MemoName × Memo V) :=
  (thread.scope.toList ++ savedScopes thread.stack).flatMap Scope.memo

/-- The answer a thread is about to give. -/
def Code.result? : Code V → Option (Result V)
  | .rekey result | .keep result => some result
  | _ => none

/-- Frames of one call, told of different things. -/
structure Frame.SameCall (first second : Frame V) : Prop where
  derivation : first.derivation = second.derivation
  variant : first.variant = second.variant
  resume : first.resume = second.resume
  keyed : first.keyed = second.keyed
  tables : first.tables = second.tables
  learns : first.learns = second.learns
  evidence : first.evidence = second.evidence
  started : first.started = second.started

theorem Frame.note_sameCall (table : String) (frame : Frame V) :
    (frame.note table).SameCall frame := by
  unfold Frame.note
  split <;> exact ⟨rfl, rfl, rfl, rfl, rfl, rfl, rfl, rfl⟩

theorem Frame.holdUntil_sameCall (zone : Zone) (moment : Aware) (frame : Frame V) :
    (frame.holdUntil zone moment).SameCall frame := by
  unfold Frame.holdUntil
  split
  · exact ⟨rfl, rfl, rfl, rfl, rfl, rfl, rfl, rfl⟩
  · split <;> exact ⟨rfl, rfl, rfl, rfl, rfl, rfl, rfl, rfl⟩

theorem Frame.holdUntil?_sameCall (zone : Zone) (moment : Option Aware) (frame : Frame V) :
    (frame.holdUntil? zone moment).SameCall frame := by
  cases moment with
  | none => exact ⟨rfl, rfl, rfl, rfl, rfl, rfl, rfl, rfl⟩
  | some moment => exact frame.holdUntil_sameCall zone moment

theorem Frame.told_sameCall (zone : Zone) (tables : List String) (moment : Option Aware)
    (frame : Frame V) : (frame.told zone tables moment).SameCall frame := by
  obtain ⟨hd, hv, hr, hk, ht, hl, he, hs⟩ := Frame.holdUntil?_sameCall zone moment
    { frame with undeclared := frame.undeclared ++ tables.filter (· ∉ frame.tables) }
  exact ⟨hd, hv, hr, hk, ht, hl, he, hs⟩

section Saved

@[simp]
theorem savedScopes_collect (items : List (Item V)) (stack : List (Activation V)) :
    savedScopes (collect items stack) = savedScopes stack := by
  induction stack with
  | nil => rfl
  | cons activation rest ih =>
      match activation with
      | .loading _ _ _ => rfl
      | .computing _ => rfl
      | .block none _ => exact ih
      | .block (some none) _ => exact ih
      | .block (some (some scope)) _ => exact congrArg (scope :: ·) ih

@[simp]
theorem savedScopes_amend (change : Frame V → Frame V) (stack : List (Activation V)) :
    savedScopes (amend change stack) = savedScopes stack := by
  induction stack with
  | nil => rfl
  | cons activation rest ih =>
      match activation with
      | .loading _ _ _ => exact ih
      | .computing _ => rfl
      | .block none _ => exact ih
      | .block (some none) _ => exact ih
      | .block (some (some scope)) _ => exact congrArg (scope :: ·) ih

@[simp]
theorem savedScopes_note (table : String) (stack : List (Activation V)) :
    savedScopes (note table stack) = savedScopes stack := by
  induction stack with
  | nil => rfl
  | cons activation rest ih =>
      match activation with
      | .loading _ _ _ => exact ih
      | .computing _ => exact ih
      | .block none _ => exact ih
      | .block (some none) _ => exact ih
      | .block (some (some scope)) _ => exact congrArg (scope :: ·) ih

end Saved

/-! ## The invariant -/

/-- The code a name is remembered for. -/
def MemoName.prog (env : Environment V) : MemoName → Prog V
  | .read name => env.loader name
  | .answer derivation variant => (env.derivation derivation).compute variant

/-- What running again makes of a thread's code, up to whoever it comes back to. -/
def Code.yields (env : Environment V) (code : Code V) (rows : String → V) (clock : Int)
    (value : V) : Prop :=
  match code with
  | .run prog => Evaluates env rows clock prog value
  | .key derivation variant resume _ | .lookup derivation variant resume _ _ =>
      ∃ answer, Evaluates env rows clock ((env.derivation derivation).compute variant) answer ∧
        Evaluates env rows clock (resume answer) value
  | .rekey result | .keep result =>
      ∃ answer, Evaluates env rows clock
          ((env.derivation result.derivation).compute result.variant) answer ∧
        Evaluates env rows clock (result.resume answer) value

/-- Whatever the thread yields, every loader and every computation it is in
yields as running again does, over tables and moments that agree with what each
has collected. -/
def StackExplained (env : Environment V) (yields : (String → V) → Int → V → Prop) :
    List (Activation V) → Prop
  | [] => True
  | .loading name resume evidence :: rest =>
      (∀ rows clock value, Agrees env evidence rows clock → yields rows clock value →
        Evaluates env rows clock (env.loader name) value) ∧
      StackExplained env (fun rows clock value => ∃ loaded,
        Evaluates env rows clock (env.loader name) loaded ∧
          Evaluates env rows clock (resume loaded) value) rest
  | .block _ resume :: rest =>
      StackExplained env (fun rows clock value => ∃ inner, yields rows clock inner ∧
        Evaluates env rows clock (resume inner) value) rest
  | .computing frame :: rest =>
      (∀ rows clock value, Agrees env frame.evidence rows clock → yields rows clock value →
        Evaluates env rows clock
          ((env.derivation frame.derivation).compute frame.variant) value) ∧
      StackExplained env (fun rows clock value => ∃ answer,
        Evaluates env rows clock
            ((env.derivation frame.derivation).compute frame.variant) answer ∧
          Evaluates env rows clock (frame.resume answer) value) rest

/-- What a thread is doing, remembers and is about to answer is explained. -/
structure Thread.Explained (env : Environment V) (thread : Thread V) : Prop where
  stack : StackExplained env (thread.code.yields env) thread.stack
  memos : ∀ name memo, (name, memo) ∈ thread.memos →
    Explains env memo.evidence (name.prog env) memo.value
  result : ∀ result ∈ thread.code.result?, Explains env result.evidence
    ((env.derivation result.derivation).compute result.variant) result.value

/-- Every thread and every cached value is explained. -/
structure World.Explained (env : Environment V) (world : World V) : Prop where
  threads : ∀ id thread, world.threads id = some thread → thread.Explained env
  cache : ∀ entry ∈ world.cache, Explains env entry.evidence
    ((env.derivation entry.derivation).compute entry.variant) entry.value

section Stack

variable {env : Environment V} {yields next : (String → V) → Int → V → Prop}

theorem StackExplained.collect {items : List (Item V)} {stack : List (Activation V)}
    (h : StackExplained env yields stack)
    (hnext : ∀ rows clock value, Agrees env items rows clock → next rows clock value →
      yields rows clock value) :
    StackExplained env next (collect items stack) := by
  induction stack generalizing yields next with
  | nil => trivial
  | cons activation rest ih =>
      match activation with
      | .loading name resume evidence =>
          refine ⟨fun rows clock value hagrees hvalue => ?_, h.2⟩
          obtain ⟨hevidence, hitems⟩ := agrees_append.mp hagrees
          exact h.1 rows clock value hevidence (hnext rows clock value hitems hvalue)
      | .computing frame =>
          refine ⟨fun rows clock value hagrees hvalue => ?_, h.2⟩
          obtain ⟨hevidence, hitems⟩ := agrees_append.mp hagrees
          exact h.1 rows clock value hevidence (hnext rows clock value hitems hvalue)
      | .block saved resume =>
          simp only [Derivations.collect, StackExplained] at h ⊢
          refine ih h ?_
          rintro rows clock value hitems ⟨inner, hinner, hvalue⟩
          exact ⟨inner, hnext rows clock inner hitems hinner, hvalue⟩

/-- Code that yields less is explained too. -/
theorem StackExplained.mono {stack : List (Activation V)} (h : StackExplained env yields stack)
    (hnext : ∀ rows clock value, next rows clock value → yields rows clock value) :
    StackExplained env next stack := by
  induction stack generalizing yields next with
  | nil => trivial
  | cons activation rest ih =>
      match activation with
      | .loading name resume evidence =>
          exact ⟨fun rows clock value hagrees hvalue =>
            h.1 rows clock value hagrees (hnext rows clock value hvalue), h.2⟩
      | .computing frame =>
          exact ⟨fun rows clock value hagrees hvalue =>
            h.1 rows clock value hagrees (hnext rows clock value hvalue), h.2⟩
      | .block saved resume =>
          simp only [StackExplained] at h ⊢
          refine ih h ?_
          rintro rows clock value ⟨inner, hinner, hvalue⟩
          exact ⟨inner, hnext rows clock inner hinner, hvalue⟩

theorem StackExplained.computing_congr {frame told : Frame V} {rest : List (Activation V)}
    (hsame : told.SameCall frame) (h : StackExplained env yields (.computing frame :: rest)) :
    StackExplained env yields (.computing told :: rest) := by
  simpa only [StackExplained, hsame.derivation, hsame.variant, hsame.resume, hsame.evidence]
    using h

theorem StackExplained.amend {change : Frame V → Frame V}
    (hchange : ∀ frame, (change frame).SameCall frame) {stack : List (Activation V)}
    (h : StackExplained env yields stack) : StackExplained env yields (amend change stack) := by
  induction stack generalizing yields with
  | nil => trivial
  | cons activation rest ih =>
      match activation with
      | .loading name resume evidence => exact ⟨h.1, ih h.2⟩
      | .computing frame => exact h.computing_congr (hchange frame)
      | .block saved resume => exact ih h

theorem StackExplained.note (table : String) {stack : List (Activation V)}
    (h : StackExplained env yields stack) : StackExplained env yields (note table stack) := by
  induction stack generalizing yields with
  | nil => trivial
  | cons activation rest ih =>
      match activation with
      | .loading name resume evidence => exact ⟨h.1, ih h.2⟩
      | .computing frame =>
          exact StackExplained.computing_congr (frame.note_sameCall table) ⟨h.1, ih h.2⟩
      | .block saved resume => exact ih h

end Stack

/-! ## Memories -/

theorem mem_memos {thread : Thread V} {entry : MemoName × Memo V} :
    entry ∈ thread.memos ↔ (∃ scope ∈ thread.scope, entry ∈ scope.memo) ∨
      ∃ scope ∈ savedScopes thread.stack, entry ∈ scope.memo := by
  simp only [Thread.memos, List.mem_flatMap, List.mem_append, Option.mem_toList, Option.mem_def,
    or_and_right, exists_or]

theorem Scope.mem_of_find? {scope : Scope V} {name : MemoName} {memo : Memo V}
    (h : scope.find? name = some memo) : (name, memo) ∈ scope.memo := by
  simp only [Scope.find?, Option.map_eq_some_iff] at h
  obtain ⟨⟨other, memo⟩, hfind, rfl⟩ := h
  have hname : other = name := by simpa using List.find?_some hfind
  exact hname ▸ List.mem_of_find?_eq_some hfind

/-- Remembering adds one value to what a thread remembers. -/
theorem mem_memos_store {thread next : Thread V} {name : MemoName} {memo : Memo V}
    (hscope : next.scope = thread.scope.map (Scope.store name memo))
    (hsaved : savedScopes next.stack ⊆ savedScopes thread.stack) {entry : MemoName × Memo V}
    (hentry : entry ∈ next.memos) : entry ∈ thread.memos ∨ entry = (name, memo) := by
  rw [mem_memos] at hentry ⊢
  rcases hentry with ⟨scope, hmem, hentry⟩ | ⟨scope, hmem, hentry⟩
  · rw [hscope, Option.mem_def, Option.map_eq_some_iff] at hmem
    obtain ⟨before, hbefore, rfl⟩ := hmem
    rcases List.mem_cons.mp hentry with rfl | hentry
    · exact .inr rfl
    · exact .inl (.inl ⟨before, hbefore, hentry⟩)
  · exact .inl (.inr ⟨scope, hsaved hmem, hentry⟩)

/-- Reading the revisions remembers nothing else. -/
theorem memo_readRevisions (world : World V) (scope : Option (Scope V)) (choice : Choice) :
    (world.readRevisions scope choice).1.map Scope.memo = scope.map Scope.memo := by
  unfold World.readRevisions
  cases scope with
  | none => rfl
  | some scope =>
      dsimp only
      split <;> rfl

/-- What is remembered is what the current projection and the saved ones hold. -/
theorem memos_subset {thread next : Thread V}
    (hscope : ∀ scope ∈ next.scope, ∀ entry ∈ scope.memo, entry ∈ thread.memos)
    (hsaved : ∀ scope ∈ savedScopes next.stack, ∀ entry ∈ scope.memo, entry ∈ thread.memos) :
    next.memos ⊆ thread.memos := by
  intro entry hentry
  rcases mem_memos.mp hentry with ⟨scope, hmem, hentry⟩ | ⟨scope, hmem, hentry⟩
  · exact hscope scope hmem entry hentry
  · exact hsaved scope hmem entry hentry

theorem memos_subset_of_scope {thread next : Thread V}
    (hscope : next.scope.map Scope.memo = thread.scope.map Scope.memo)
    (hsaved : savedScopes next.stack ⊆ savedScopes thread.stack) :
    next.memos ⊆ thread.memos := by
  apply memos_subset
  · intro scope hmem entry hentry
    have hmemo : scope.memo ∈ next.scope.map Scope.memo := Option.mem_map_of_mem _ hmem
    rw [hscope, Option.mem_def, Option.map_eq_some_iff] at hmemo
    obtain ⟨before, hbefore, hmemo⟩ := hmemo
    exact mem_memos.mpr (.inl ⟨before, hbefore, hmemo ▸ hentry⟩)
  · intro scope hmem entry hentry
    exact mem_memos.mpr (.inr ⟨scope, hsaved hmem, hentry⟩)

/-- Opening a projection keeps the one there was for later. -/
theorem memos_subset_of_open {thread next : Thread V} (resume : V → Prog V)
    (hscope : next.scope = some Scope.fresh)
    (hsaved : savedScopes next.stack =
      savedScopes (.block (some thread.scope) resume :: thread.stack)) :
    next.memos ⊆ thread.memos := by
  apply memos_subset
  · intro scope hmem entry hentry
    rw [hscope] at hmem
    cases hmem
    cases hentry
  · intro scope hmem entry hentry
    rw [hsaved] at hmem
    rw [mem_memos]
    cases hcurrent : thread.scope with
    | none =>
        rw [hcurrent] at hmem
        exact .inr ⟨scope, hmem, hentry⟩
    | some current =>
        rw [hcurrent] at hmem
        rcases List.mem_cons.mp hmem with rfl | hmem
        · exact .inl ⟨scope, rfl, hentry⟩
        · exact .inr ⟨scope, hmem, hentry⟩

/-- Closing a block forgets at most what it remembered. -/
theorem memos_subset_of_close {thread next : Thread V} {saved : Option (Option (Scope V))}
    {resume : V → Prog V} {rest : List (Activation V)}
    (hstack : thread.stack = .block saved resume :: rest)
    (hscope : next.scope = saved.getD thread.scope) (hsaved : next.stack = rest) :
    next.memos ⊆ thread.memos := by
  apply memos_subset
  · intro scope hmem entry hentry
    rw [hscope] at hmem
    rw [mem_memos, hstack]
    match saved, hmem with
    | none, hmem => exact .inl ⟨scope, hmem, hentry⟩
    | some none, hmem => cases hmem
    | some (some before), hmem =>
        obtain rfl := Option.some.inj hmem
        exact .inr ⟨before, List.mem_cons_self, hentry⟩
  · intro scope hmem entry hentry
    rw [mem_memos, hstack]
    rw [hsaved] at hmem
    match saved with
    | none => exact .inr ⟨scope, hmem, hentry⟩
    | some none => exact .inr ⟨scope, hmem, hentry⟩
    | some (some before) => exact .inr ⟨scope, List.mem_cons_of_mem _ hmem, hentry⟩

/-! ## Statements -/

section Statements

variable {env : Environment V} {world : World V} {id : Nat} {thread next : Thread V}

theorem World.Explained.runs (h : world.Explained env) (hnext : next.Explained env) :
    (world.runs id next).Explained env := by
  refine ⟨fun other thread hthread => ?_, h.cache⟩
  simp only [World.runs, Function.update_apply] at hthread
  by_cases hid : other = id
  · rw [if_pos hid, Option.some.injEq] at hthread
    exact hthread ▸ hnext
  · rw [if_neg hid] at hthread
    exact h.threads other thread hthread

theorem World.Explained.ends (h : world.Explained env) : (world.ends id).Explained env := by
  refine ⟨fun other thread hthread => ?_, h.cache⟩
  simp only [World.ends, Function.update_apply] at hthread
  by_cases hid : other = id
  · rw [if_pos hid] at hthread
    cases hthread
  · rw [if_neg hid] at hthread
    exact h.threads other thread hthread

theorem World.Explained.gives (h : world.Explained env) {process : Nat} {derivation : String}
    {expires : Option Aware} {evidence : List (Item V)} :
    (world.gives process derivation expires evidence).Explained env :=
  ⟨h.threads, h.cache⟩

theorem World.Explained.serves (h : world.Explained env) {keyed : Keyed}
    {evidence : List (Item V)} : (world.serves keyed evidence).Explained env :=
  ⟨h.threads, h.cache⟩

theorem World.Explained.learns (h : world.Explained env) {process : Nat} {derivation : String}
    {new : List String} : (world.learns process derivation new).Explained env :=
  ⟨h.threads, h.cache⟩

/-- A thread that gives no answer yet, and remembers nothing new. -/
theorem Thread.Explained.goesOn (h : thread.Explained env)
    (hstack : StackExplained env (next.code.yields env) next.stack)
    (hmemos : next.memos ⊆ thread.memos) (hresult : next.code.result? = none) :
    next.Explained env where
  stack := hstack
  memos name memo hmemo := h.memos name memo (hmemos hmemo)
  result result hmem := by simp [hresult] at hmem

theorem World.Explained.reads (h : world.Explained env) (hthread : thread.Explained env)
    {table : String} {resume : V → Prog V} (hcode : thread.code = .run (.read table resume)) :
    (world.reads id thread table resume).Explained env := by
  apply h.runs
  apply hthread.goesOn _ _ rfl
  · have hstack := hthread.stack
    rw [hcode] at hstack
    apply (hstack.note table).collect
    intro rows clock value hagrees hvalue
    have hrows : rows table = world.rows table := hagrees _ List.mem_cons_self
    exact .read (hrows ▸ hvalue)
  · exact memos_subset_of_scope rfl (by simp)

theorem World.Explained.asksClock (h : world.Explained env) (hthread : thread.Explained env)
    {question : Question} {resume : Reading → Prog V}
    (hcode : thread.code = .run (.clock question resume)) :
    (world.asksClock env id thread question resume).Explained env := by
  unfold World.asksClock
  split
  · exact h.ends
  · next hraises =>
    apply h.runs
    apply hthread.goesOn _ _ rfl
    · have hstack := hthread.stack
      rw [hcode] at hstack
      apply (hstack.amend fun frame => frame.holdUntil?_sameCall _ _).collect
      intro rows clock value hagrees hvalue
      have hreading : question.reading env.zone clock = question.reading env.zone world.now :=
        hagrees _ List.mem_cons_self
      exact .clock (by simpa using hraises) (hreading ▸ hvalue)
    · exact memos_subset_of_scope rfl (by simp)

theorem World.Explained.readsOnce (h : world.Explained env) (hthread : thread.Explained env)
    {name : String} {resume : V → Prog V} (hcode : thread.code = .run (.once name resume)) :
    (world.readsOnce env id thread name resume).Explained env := by
  have hstack := hthread.stack
  rw [hcode] at hstack
  unfold World.readsOnce
  split
  · apply h.runs
    apply hthread.goesOn _ _ rfl
    · apply hstack.mono
      rintro rows clock value ⟨loaded, hloaded, hvalue⟩
      exact .once hloaded hvalue
    · exact memos_subset_of_scope rfl (List.Subset.refl _)
  · next scope hscope =>
    split
    · next memo hmemo =>
      apply h.runs
      apply hthread.goesOn _ _ rfl
      · apply hstack.collect
        intro rows clock value hagrees hvalue
        have hmem := mem_memos.mpr (.inl ⟨scope, hscope, Scope.mem_of_find? hmemo⟩)
        exact .once (hthread.memos _ _ hmem rows clock hagrees) hvalue
      · exact memos_subset_of_scope rfl (by simp)
    · apply h.runs
      apply hthread.goesOn _ _ rfl
      · refine ⟨fun rows clock value _ hvalue => hvalue, hstack.mono ?_⟩
        rintro rows clock value ⟨loaded, hloaded, hvalue⟩
        exact .once hloaded hvalue
      · exact memos_subset_of_scope rfl (List.Subset.refl _)

theorem World.Explained.opens (h : world.Explained env) (hthread : thread.Explained env)
    {apart : Bool} {body : Prog V} {resume : V → Prog V}
    (hcode : thread.code = .run (.scope apart body resume)) :
    (world.opens id thread apart body resume).Explained env := by
  have hstack := hthread.stack
  rw [hcode] at hstack
  have hbody : StackExplained env (fun rows clock value => ∃ inner,
      Evaluates env rows clock body inner ∧ Evaluates env rows clock (resume inner) value)
      thread.stack := by
    apply hstack.mono
    rintro rows clock value ⟨inner, hinner, hvalue⟩
    exact .scope hinner hvalue
  unfold World.opens
  split
  · apply h.runs
    apply hthread.goesOn _ _ rfl
    · exact hbody
    · exact memos_subset_of_scope rfl (List.Subset.refl _)
  · apply h.runs
    apply hthread.goesOn _ _ rfl
    · exact hbody
    · exact memos_subset_of_open resume rfl rfl

/-- A remembered answer, or one on its way back, is what asking again gives. -/
theorem StackExplained.answered {stack : List (Activation V)} {derivation variant : String}
    {resume : V → Prog V} {evidence items : List (Item V)} {value : V} {tables : List String}
    {moment : Option Aware}
    (h : StackExplained env (fun rows clock value => ∃ answer,
      Evaluates env rows clock ((env.derivation derivation).compute variant) answer ∧
        Evaluates env rows clock (resume answer) value) stack)
    (hvalue : Explains env evidence ((env.derivation derivation).compute variant) value) :
    StackExplained env (fun rows clock => Evaluates env rows clock (resume value))
      (Derivations.collect (evidence ++ items)
        (Derivations.amend (Frame.told env.zone tables moment) stack)) := by
  apply (h.amend fun frame => frame.told_sameCall _ _ _).collect
  intro rows clock final hagrees hfinal
  exact ⟨value, hvalue rows clock (agrees_append.mp hagrees).1, hfinal⟩

theorem World.Explained.asks (h : world.Explained env) (hthread : thread.Explained env)
    {derivation variant : String} {resume : V → Prog V}
    (hcode : thread.code = .run (.ask derivation variant resume)) :
    (world.asks env id thread derivation variant resume).Explained env := by
  have hstack := hthread.stack
  rw [hcode] at hstack
  have hasked : StackExplained env (fun rows clock value => ∃ answer,
      Evaluates env rows clock ((env.derivation derivation).compute variant) answer ∧
        Evaluates env rows clock (resume answer) value) thread.stack := by
    apply hstack.mono
    rintro rows clock value ⟨answer, hanswer, hvalue⟩
    exact .ask hanswer hvalue
  unfold World.asks
  split
  · split
    · next memo hmemo =>
      obtain ⟨scope, hscope, hfind⟩ := Option.bind_eq_some_iff.mp hmemo
      have hmem := mem_memos.mpr (.inl ⟨scope, hscope, Scope.mem_of_find? hfind⟩)
      apply h.gives.runs
      apply hthread.goesOn _ _ rfl
      · exact hasked.answered (hthread.memos _ _ hmem)
      · exact memos_subset_of_scope rfl (by simp)
    · apply h.runs
      apply hthread.goesOn _ _ rfl
      · exact hasked
      · exact memos_subset_of_scope rfl (List.Subset.refl _)
  · exact h.ends

/-- An answer with its evidence reaches whoever asked. -/
theorem World.Explained.delivers (h : world.Explained env) (hthread : thread.Explained env)
    {result : Result V} (hstack : StackExplained env ((Code.keep result).yields env) thread.stack)
    (hresult : Explains env result.evidence
      ((env.derivation result.derivation).compute result.variant) result.value) :
    (world.delivers env id thread result).Explained env := by
  apply h.gives.runs
  refine ⟨hstack.answered hresult, ?_, fun other hother => by simp [Code.result?] at hother⟩
  intro name memo hmemo
  rcases mem_memos_store rfl (by simp) hmemo with hmemo | hmemo
  · exact hthread.memos name memo hmemo
  · cases hmemo
    exact hresult

theorem World.Explained.computed (h : world.Explained env) (hthread : thread.Explained env)
    {frame : Frame V} {rest : List (Activation V)} {value : V}
    (hcode : thread.code = .run (.ret value)) (hrest : thread.stack = .computing frame :: rest) :
    (world.computed env id thread frame rest value).Explained env := by
  have hstack := hthread.stack
  rw [hcode, hrest] at hstack
  apply h.learns.runs
  have hvalue : Explains env frame.evidence
      ((env.derivation frame.derivation).compute frame.variant) value :=
    fun rows clock hagrees => hstack.1 rows clock value hagrees (.ret value)
  refine ⟨?_, ?_, ?_⟩
  · dsimp only
    split <;> exact hstack.2
  · intro name memo hmemo
    apply hthread.memos name memo
    apply memos_subset_of_scope _ _ hmemo
    · rfl
    · simp [hrest, savedScopes]
  · intro result hresult
    dsimp only at hresult
    split at hresult
    all_goals
      cases hresult
      exact hvalue

theorem World.Explained.returns (h : world.Explained env) (hthread : thread.Explained env)
    {value : V} (hcode : thread.code = .run (.ret value)) :
    (world.returns env id thread value).Explained env := by
  have hstack := hthread.stack
  rw [hcode] at hstack
  unfold World.returns
  split
  · exact h.ends
  · next name resume evidence rest hrest =>
    rw [hrest] at hstack
    have hloaded : Explains env evidence (env.loader name) value :=
      fun rows clock hagrees => hstack.1 rows clock value hagrees (.ret value)
    apply h.runs
    refine ⟨?_, ?_, fun result hresult => by simp [Code.result?] at hresult⟩
    · apply hstack.2.collect
      intro rows clock final hagrees hfinal
      exact ⟨value, hloaded rows clock hagrees, hfinal⟩
    · intro other memo hmemo
      rcases mem_memos_store rfl (by simp [hrest, savedScopes]) hmemo with hmemo | hmemo
      · exact hthread.memos other memo hmemo
      · cases hmemo
        exact hloaded
  · next saved resume rest hrest =>
    rw [hrest] at hstack
    simp only [StackExplained] at hstack
    apply h.runs
    apply hthread.goesOn _ (memos_subset_of_close hrest rfl rfl) rfl
    apply hstack.mono
    intro rows clock final hfinal
    exact ⟨value, .ret value, hfinal⟩
  · next frame rest hrest => exact h.computed hthread hcode hrest

theorem World.Explained.computes (h : world.Explained env) (hthread : thread.Explained env)
    {derivation variant : String} {resume : V → Prog V} {keyed : Option Keyed} {started : Nat}
    (hcode : thread.code = .lookup derivation variant resume keyed started) :
    (world.computes env id thread derivation variant resume keyed started).Explained env := by
  have hstack := hthread.stack
  rw [hcode] at hstack
  unfold World.computes
  dsimp only
  split
  · apply h.runs
    apply hthread.goesOn _ _ rfl
    · refine ⟨?_, hstack⟩
      rintro rows clock value - ⟨inner, hinner, hvalue⟩
      cases hvalue
      exact hinner
    · apply memos_subset_of_open .ret rfl
      cases thread.scope <;> rfl
  · apply h.runs
    apply hthread.goesOn _ _ rfl
    · exact ⟨fun rows clock value _ hvalue => hvalue, hstack⟩
    · exact memos_subset_of_scope rfl (List.Subset.refl _)

theorem World.Explained.keeps (h : world.Explained env) {result : Result V} {choice : Choice}
    (hresult : Explains env result.evidence
      ((env.derivation result.derivation).compute result.variant) result.value) :
    (world.keeps env result choice).Explained env := by
  unfold World.keeps
  split
  · exact h
  · split
    · exact h
    · refine ⟨h.threads, fun entry hentry => ?_⟩
      rcases List.mem_cons.mp hentry with rfl | hentry
      · exact hresult
      · exact h.cache entry (List.mem_filter.mp hentry).1

/-- An entry that is served is one of the cache, under the key of the call. -/
theorem World.mem_of_stored? {derivation variant : String} {choice : Choice} {keyed : Keyed}
    {entry : Entry V} (h : world.stored? env derivation variant choice (some keyed) = some entry) :
    entry ∈ world.cache ∧ entry.isUnder derivation variant keyed = true := by
  simp only [World.stored?] at h
  split at h
  · cases h
  · obtain ⟨hfind, -⟩ := Option.filter_eq_some_iff.mp h
    have hunder := List.find?_some hfind
    exact ⟨List.mem_of_find?_eq_some hfind, hunder⟩

theorem World.Explained.keys (h : world.Explained env) (hthread : thread.Explained env)
    {derivation variant : String} {resume : V → Prog V} {started : Nat} (choice : Choice)
    (hcode : thread.code = .key derivation variant resume started) :
    (world.keys env id thread derivation variant resume started choice).Explained env := by
  have hstack := hthread.stack
  rw [hcode] at hstack
  apply h.runs
  apply hthread.goesOn _ _ rfl
  · exact hstack
  · exact memos_subset_of_scope (memo_readRevisions _ _ _) (List.Subset.refl _)

theorem World.Explained.looksUp (h : world.Explained env) (hthread : thread.Explained env)
    {derivation variant : String} {resume : V → Prog V} {keyed : Option Keyed} {started : Nat}
    (choice : Choice) (hcode : thread.code = .lookup derivation variant resume keyed started) :
    (world.looksUp env id thread derivation variant resume keyed started choice).Explained env := by
  unfold World.looksUp
  split
  · next under entry hentry =>
    have hstack := hthread.stack
    rw [hcode] at hstack
    obtain ⟨hmem, hunder⟩ := World.mem_of_stored? hentry
    simp only [Entry.isUnder, Bool.and_eq_true, beq_iff_eq] at hunder
    apply h.serves.delivers hthread
    · exact hstack
    · rw [← hunder.1.1, ← hunder.1.2]
      exact h.cache entry hmem
  · exact h.computes hthread hcode

theorem World.Explained.rekeys (h : world.Explained env) (hthread : thread.Explained env)
    {result : Result V} (choice : Choice) (hcode : thread.code = .rekey result) :
    (world.rekeys env id thread result choice).Explained env := by
  have hstack := hthread.stack
  rw [hcode] at hstack
  apply h.runs
  refine ⟨hstack, ?_, ?_⟩
  · intro name memo hmemo
    apply hthread.memos name memo
    apply memos_subset_of_scope _ _ hmemo
    · exact memo_readRevisions _ _ _
    · exact List.Subset.refl _
  · intro other hother
    cases hother
    exact hthread.result result (by simp [hcode, Code.result?])

theorem World.Explained.advance (h : world.Explained env) (hthread : thread.Explained env)
    (choice : Choice) : (world.advance env id thread choice).Explained env := by
  unfold World.advance
  split
  · next value hcode => exact h.returns hthread hcode
  · next table resume hcode => exact h.reads hthread hcode
  · next question resume hcode => exact h.asksClock hthread hcode
  · next name resume hcode => exact h.readsOnce hthread hcode
  · next apart body resume hcode => exact h.opens hthread hcode
  · next derivation variant resume hcode => exact h.asks hthread hcode
  · next derivation variant resume started hcode => exact h.keys hthread choice hcode
  · next derivation variant resume keyed started hcode => exact h.looksUp hthread choice hcode
  · next result hcode => exact h.rekeys hthread choice hcode
  · next result hcode =>
    have hstack := hthread.stack
    rw [hcode] at hstack
    have hresult := hthread.result result (by simp [hcode, Code.result?])
    exact (h.keeps hresult).delivers hthread hstack hresult

/-- A commit is seen in the rows and the revisions, and nowhere else. -/
theorem World.commits_eq (changes : List (String × V)) : world.commits changes = { world with
    rows := (world.commits changes).rows
    revision := (world.commits changes).revision } := by
  induction changes generalizing world with
  | nil => rfl
  | cons change changes ih => exact ih

/-- Whatever happens, everything in hand stays explained. -/
theorem World.Explained.step (h : world.Explained env) (event : Event V) :
    (step env world event).Explained env := by
  cases event with
  | tick elapsed => exact ⟨h.threads, h.cache⟩
  | commit changes =>
      refine ⟨fun id thread hthread => ?_, fun entry hentry => ?_⟩
      · rw [Derivations.step, World.commits_eq] at hthread
        exact h.threads id thread hthread
      · rw [Derivations.step, World.commits_eq] at hentry
        exact h.cache entry hentry
  | request id process prog =>
      simp only [Derivations.step]
      split
      · apply h.runs
        refine ⟨trivial, fun name memo hmemo => ?_, fun result hresult => ?_⟩
        · rcases mem_memos.mp hmemo with ⟨_, hscope, -⟩ | ⟨_, hscope, -⟩ <;> cases hscope
        · simp [Code.result?] at hresult
      · exact h
  | advance id choice =>
      simp only [Derivations.step]
      split
      · next thread hthread => exact h.advance (h.threads id thread hthread) choice
      · exact h
  | raise id => exact h.ends
  | evict index =>
      exact ⟨h.threads, fun entry hentry => h.cache entry (List.mem_of_mem_eraseIdx hentry)⟩

theorem explained_start (env : Environment V) (now : Int) (rows : String → V)
    (revision : String → Nat) : (World.start now rows revision).Explained env :=
  ⟨fun _ _ hthread => by simp [World.start] at hthread,
    fun _ hentry => by simp [World.start] at hentry⟩

/-- In every run, everything in hand is explained. -/
theorem run_explained (env : Environment V) (now : Int) (rows : String → V)
    (revision : String → Nat) (events : List (Event V)) :
    (run (Derivations.step env) (World.start now rows revision) events).Explained env :=
  run_always (World.Explained env) (fun _ event h => h.step event)
    (explained_start env now rows revision) _

end Statements

end SeverinoHQ.Derivations
