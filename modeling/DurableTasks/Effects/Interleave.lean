import DurableTasks.Effects.Embed
import Mathlib.Logic.Function.Basic

/-!
Threads that take turns, one effect at a time, over a shared world.

What a thread knows is what its own effects were answered: other threads can
make it outdated but cannot change it. A protocol says what a thread may do
given what it knows, so that a thread is checked against it alone, whatever the
others do in between (`Program.conforms`); an invariant of the shared world then
only has to be kept by every effect the protocol allows (`Pool.invariant`).
-/

namespace DurableTasks.Effects

/-- What a thread may do, given what it knows, and what it learns from the
answer. Answers that are not `valid` are never given. -/
structure Protocol (E : Type) (R : E → Type) (K : Type) where
  guard : K → E → Prop
  valid : (e : E) → R e → Prop
  learn : K → (e : E) → R e → K

/-- Two protocols at once, each with knowledge of its own. -/
def Protocol.both {E : Type} {R : E → Type} {K K' : Type} (T : Protocol E R K)
    (T' : Protocol E R K') : Protocol E R (K × K') where
  guard k e := T.guard k.1 e ∧ T'.guard k.2 e
  valid e a := T.valid e a ∧ T'.valid e a
  learn k e a := (T.learn k.1 e a, T'.learn k.2 e a)

namespace Program

variable {E : Type} {R : E → Type} {K α β : Type}

/-- Every effect the program performs from knowledge `k` on is allowed, whatever
the answers are, and it returns with `Q`. -/
def conforms (T : Protocol E R K) : Program E R α → (α → K → Prop) → K → Prop
  | .done a, Q, k => Q a k
  | .step e next, Q, k => T.guard k e ∧ ∀ a, T.valid e a → (next a).conforms T Q (T.learn k e a)

variable {T : Protocol E R K} {k : K}

@[simp] theorem conforms_done {Q : α → K → Prop} (a : α) :
    (done a : Program E R α).conforms T Q k ↔ Q a k := Iff.rfl

@[simp] theorem conforms_step {Q : α → K → Prop} (e : E) (next : R e → Program E R α) :
    (step e next).conforms T Q k ↔
      T.guard k e ∧ ∀ a, T.valid e a → (next a).conforms T Q (T.learn k e a) := Iff.rfl

@[simp] theorem conforms_bind {Q : β → K → Prop} (p : Program E R α) (f : α → Program E R β) :
    (p >>= f).conforms T Q k ↔ p.conforms T (fun a k' => (f a).conforms T Q k') k := by
  induction p generalizing k with
  | done a => rfl
  | step e next ih => simp only [step_bind, conforms_step, ih]

theorem conforms_mono {Q Q' : α → K → Prop} (hQ : ∀ a k, Q a k → Q' a k) (p : Program E R α)
    (hp : p.conforms T Q k) : p.conforms T Q' k := by
  induction p generalizing k with
  | done a => exact hQ a k hp
  | step e next ih => exact ⟨hp.1, fun a ha => ih a (hp.2 a ha)⟩

theorem conforms_both {K' : Type} {T' : Protocol E R K'} {Q : α → K → Prop} {Q' : α → K' → Prop}
    {k' : K'} {p : Program E R α} (h : p.conforms T Q k) (h' : p.conforms T' Q' k') :
    p.conforms (T.both T') (fun a k => Q a k.1 ∧ Q' a k.2) (k, k') := by
  induction p generalizing k k' with
  | done a => exact ⟨h, h'⟩
  | step e next ih =>
    exact ⟨⟨h.1, h'.1⟩, fun a ha => ih a (h.2 a ha.1) (h'.2 a ha.2)⟩

theorem conforms_and {Q Q' : α → K → Prop} {p : Program E R α} (h : p.conforms T Q k)
    (h' : p.conforms T Q' k) : p.conforms T (fun a k => Q a k ∧ Q' a k) k := by
  induction p generalizing k with
  | done a => exact ⟨h, h'⟩
  | step e next ih => exact ⟨h.1, fun a ha => ih a (h.2 a ha) (h'.2 a ha)⟩

theorem conforms_embed {E' : Type} {R' : E' → Type} {f : E' → E}
    {answer : (e : E') → R (f e) → R' e} {Q : α → K → Prop} (hguard : ∀ e, T.guard k (f e))
    (hlearn : ∀ e a, T.learn k (f e) a = k) (hQ : ∀ a, Q a k) (p : Program E' R' α) :
    (p.embed f answer).conforms T Q k := by
  induction p with
  | done a => exact hQ a
  | step e next ih =>
    refine ⟨hguard e, fun a _ => ?_⟩
    rw [hlearn]
    exact ih _

def returned : Program E R α → Bool
  | .done _ => true
  | .step _ _ => false

def succeeded {ε : Type} : Program E R (Except ε α) → Bool
  | .done (.ok _) => true
  | _ => false

theorem returned_of_succeeded {ε : Type} {p : Program E R (Except ε α)}
    (h : p.succeeded = true) : p.returned = true := by
  cases p with
  | done a => rfl
  | step e next => cases h

theorem conforms.of_succeeded {ε : Type} {T : Protocol E R K} {Q : Except ε α → K → Prop} {k : K}
    {p : Program E R (Except ε α)} (h : p.conforms T Q k) (hok : p.succeeded = true) :
    ∃ a, Q (.ok a) k := by
  rcases p with (e | a) | _
  · cases hok
  · exact ⟨a, h⟩
  · cases hok

end Program

/-- `conforms` for a program that may fail: `Q` holds of the value or error it
returns. -/
def FollowsOf {E : Type} {R : E → Type} {K ε α : Type} (T : Protocol E R K)
    (x : ExceptT ε (Program E R) α) (Q : Except ε α → K → Prop) (k : K) : Prop :=
  x.run.conforms T Q k

namespace FollowsOf

variable {E : Type} {R : E → Type} {K ε α β : Type} {T : Protocol E R K} {k : K}

/-- Sequencing, with `J` what the rest of the program asks of a value or error. -/
theorem bind_iff {Q : Except ε β → K → Prop} {J : Except ε α → K → Prop}
    (x : ExceptT ε (Program E R) α) (f : α → ExceptT ε (Program E R) β)
    (hok : ∀ a k', J (.ok a) k' ↔ FollowsOf T (f a) Q k')
    (herror : ∀ e k', J (.error e) k' ↔ Q (.error e) k') :
    FollowsOf T (x >>= f) Q k ↔ FollowsOf T x J k := by
  simp only [FollowsOf, ExceptT.run_bind, Program.conforms_bind]
  constructor <;> refine Program.conforms_mono ?_ _
  · rintro (e | a) k' h
    · exact (herror e k').mpr h
    · exact (hok a k').mpr h
  · rintro (e | a) k' h
    · exact (herror e k').mp h
    · exact (hok a k').mp h

theorem lift_run_iff {x : ExceptT ε (Program E R) α} {Q : Except ε (Except ε α) → K → Prop} :
    FollowsOf T (ExceptT.lift x.run) Q k ↔ FollowsOf T x (fun res k' => Q (.ok res) k') k := by
  simp only [FollowsOf, ExceptT.run_lift]
  rw [map_eq_pure_bind]
  simp only [Program.conforms_bind, Program.pure_eq, Program.conforms_done]

end FollowsOf

/-- From wherever `P` holds, `x` leaves `A` if it succeeds. -/
def LeavesOf {E : Type} {R : E → Type} {K ε α : Type} (T : Protocol E R K) (P : K → Prop)
    (x : ExceptT ε (Program E R) α) (A : α → K → Prop) : Prop :=
  ∀ k, P k → FollowsOf T x (fun res k' => ∀ a, res = .ok a → A a k') k

namespace LeavesOf

variable {E : Type} {R : E → Type} {K ε α β : Type} {T : Protocol E R K} {P : K → Prop}
  {x : ExceptT ε (Program E R) α} {A : α → K → Prop}

theorem pure {a : α} (h : ∀ k, P k → A a k) :
    LeavesOf T P (Pure.pure a : ExceptT ε (Program E R) α) A := by
  rintro k hk _ ⟨⟩
  exact h k hk

theorem throw (e : ε) : LeavesOf T P (throw e : ExceptT ε (Program E R) α) A := by
  rintro k - a ⟨⟩

theorem bind {f : α → ExceptT ε (Program E R) β} {B : β → K → Prop} (hx : LeavesOf T P x A)
    (hf : ∀ a, LeavesOf T (A a) (f a) B) : LeavesOf T P (x >>= f) B := by
  intro k hk
  refine (FollowsOf.bind_iff (J := fun res k' => ∀ a, res = .ok a →
    FollowsOf T (f a) (fun res k' => ∀ b, res = .ok b → B b k') k') x f (by simp) (by simp)).mpr ?_
  exact Program.conforms_mono (fun res k' h a ha => hf a k' (h a ha)) _ (hx k hk)

theorem lift (hx : LeavesOf T P x A) :
    LeavesOf T P (ExceptT.lift x.run : ExceptT ε (Program E R) (Except ε α))
      fun res k => ∀ a, res = .ok a → A a k := by
  intro k hk
  refine FollowsOf.lift_run_iff.mpr (Program.conforms_mono ?_ _ (hx k hk))
  rintro res k' h _ ⟨⟩
  exact h

theorem given {P' : K → Prop} (hx : LeavesOf T P x A) (hP : ∀ k, P' k → P k) :
    LeavesOf T P' x A :=
  fun k hk => hx k (hP k hk)

theorem imp {A' : α → K → Prop} (hx : LeavesOf T P x A) (hA : ∀ a k, A a k → A' a k) :
    LeavesOf T P x A' :=
  fun k hk => Program.conforms_mono (fun _ _ h a ha => hA a _ (h a ha)) _ (hx k hk)

theorem and {A' : α → K → Prop} (hx : LeavesOf T P x A) (hx' : LeavesOf T P x A') :
    LeavesOf T P x fun a k => A a k ∧ A' a k :=
  fun k hk => Program.conforms_mono (fun _ _ h a ha => ⟨h.1 a ha, h.2 a ha⟩) _
    (Program.conforms_and (hx k hk) (hx' k hk))

/-- What no answer takes back still holds in the end. -/
theorem stable (hfree : ∀ k e, T.guard k e) (hP : ∀ k e a, P k → P (T.learn k e a))
    (x : ExceptT ε (Program E R) α) : LeavesOf T P x fun _ => P := by
  suffices h : ∀ (p : Program E R (Except ε α)) k, P k → p.conforms T (fun _ => P) k from
    fun k hk => Program.conforms_mono (fun _ _ h _ _ => h) _ (h x.run k hk)
  intro p
  induction p with
  | done a => exact fun _ hk => hk
  | step e next ih => exact fun k hk => ⟨hfree k e, fun a _ => ih a _ (hP k e a hk)⟩

end LeavesOf

/-! ## Along a path -/

/-- A way for what a thread knows to go on: `P` holds where it may begin and all
along it. -/
class Path {K : Type} (P : K → Prop) (S : K → K → Prop) : Prop where
  refl : ∀ {k}, P k → S k k
  next : ∀ {k k'}, P k → S k k' → P k'
  trans : ∀ {k k' k''}, S k k' → S k' k'' → S k k''

instance {K : Type} (P : K → Prop) : Path P fun _ k' => P k' := ⟨id, fun _ h => h, fun _ h => h⟩

/-- From wherever `P` holds the program goes on along `S`, whatever it
returns. -/
def TracksOf {E : Type} {R : E → Type} {K ε α : Type} (T : Protocol E R K) (P : K → Prop)
    (S : K → K → Prop) (x : ExceptT ε (Program E R) α) : Prop :=
  ∀ k, P k → FollowsOf T x (fun _ k' => S k k') k

namespace TracksOf

variable {E : Type} {R : E → Type} {K ε α β : Type} {T : Protocol E R K} {P : K → Prop}
  {S : K → K → Prop} {x y : ExceptT ε (Program E R) α} {f : α → ExceptT ε (Program E R) β}

theorem ite {c : Prop} [Decidable c] (hx : c → TracksOf T P S x) (hy : ¬c → TracksOf T P S y) :
    TracksOf T P S (if c then x else y) := by
  split
  · next hc => exact hx hc
  · next hc => exact hy hc

theorem mono {P' : K → Prop} {S' : K → K → Prop} (hx : TracksOf T P S x) (hP : ∀ {k}, P' k → P k)
    (hS : ∀ {k k'}, P' k → S k k' → S' k k') : TracksOf T P' S' x :=
  fun k hk => Program.conforms_mono (fun _ _ => hS hk) _ (hx k (hP hk))

theorem lift (hx : TracksOf T P S x) :
    TracksOf T P S (ExceptT.lift x.run : ExceptT ε (Program E R) (Except ε α)) :=
  fun k hk => FollowsOf.lift_run_iff.mpr (hx k hk)

variable [Path P S]

theorem pure (a : α) : TracksOf T P S (Pure.pure a : ExceptT ε (Program E R) α) :=
  fun _ hk => Path.refl hk

theorem throw (e : ε) : TracksOf T P S (throw e : ExceptT ε (Program E R) α) :=
  fun _ hk => Path.refl hk

/-- What is left to do after some steps along the path. -/
theorem after (hx : TracksOf T P S x) {k k' : K} (hk : P k) (h : S k k') :
    FollowsOf T x (fun _ k'' => S k k'') k' :=
  Program.conforms_mono (fun _ _ => Path.trans P h) _ (hx k' (Path.next hk h))

theorem bind (hx : TracksOf T P S x) (hf : ∀ a, TracksOf T P S (f a)) :
    TracksOf T P S (x >>= f) := by
  intro k hk
  refine (FollowsOf.bind_iff (J := fun res k' => match res with
    | .ok a => FollowsOf T (f a) (fun _ k'' => S k k'') k'
    | .error _ => S k k') x f (fun _ _ => Iff.rfl) fun _ _ => Iff.rfl).mpr ?_
  refine Program.conforms_mono ?_ _ (hx k hk)
  rintro (e | a) k' h
  · exact h
  · exact (hf a).after hk h

theorem forM {l : List α} {f : α → ExceptT ε (Program E R) PUnit}
    (hf : ∀ a ∈ l, TracksOf T P S (f a)) : TracksOf T P S (l.forM f) := by
  induction l with
  | nil => exact .pure _
  | cons a l ih =>
    exact (hf a List.mem_cons_self).bind fun _ => ih fun b hb => hf b (List.mem_cons_of_mem _ hb)

end TracksOf

/-! ## Answers of an access

What `conforms_perform` comes down to for the usual guards and answers. -/

section Answers

variable {ε β : Type}

theorem ok_answer {P : Except ε β → Prop} :
    (True ∧ ∀ a, (∃ o, a = .ok o) → P a) ↔ ∀ o, P (.ok o) := by
  simp

theorem ok_listing {L : β → Prop} {P : Except ε β → Prop} :
    (True ∧ ∀ a, (∃ l, a = .ok l ∧ L l) → P a) ↔ ∀ l, L l → P (.ok l) := by
  refine ⟨fun h l hl => h.2 _ ⟨l, rfl, hl⟩, fun h => ⟨trivial, ?_⟩⟩
  rintro _ ⟨l, rfl, hl⟩
  exact h l hl

/-- An access that is always allowed and may answer anything. -/
theorem free_answer {P : β → Prop} : (True ∧ ∀ a, True → P a) ↔ ∀ a, P a := by
  simp

theorem unit_answer {G : Prop} {P : Unit → Prop} : (G ∧ ∀ a, True → P a) ↔ G ∧ P () :=
  and_congr_right fun _ => ⟨fun h => h () trivial, fun h _ _ => h⟩

end Answers

/-- What an access leaves as it is in the view of the thread that makes it stays
as it is in every view. -/
theorem update_view {I K γ : Type} [DecidableEq I] (know : I → K) (i : I) (k : K) (g : K → γ)
    (hg : g k = g (know i)) (j : I) : g (Function.update know i k j) = g (know j) := by
  by_cases hj : j = i
  · subst hj
    rw [Function.update_self, hg]
  · rw [Function.update_of_ne hj]

/-- What is so in a view is so in the new view of the thread, or was so before. -/
theorem update_cases {I K : Type} [DecidableEq I] {know : I → K} {i j : I} {k : K} (p : K → Prop)
    (h : p (Function.update know i k j)) : j = i ∧ p k ∨ j ≠ i ∧ p (know j) := by
  by_cases hj : j = i
  · subst hj
    exact .inl ⟨rfl, Function.update_self j k know ▸ h⟩
  · exact .inr ⟨hj, Function.update_of_ne hj k know ▸ h⟩

/-- What an effect of thread `i` answers and does to the shared world, unless it
has to wait. -/
abbrev Act (I E : Type) (R : E → Type) (W : Type) := I → (e : E) → W → Option (R e × W)

structure Pool (I E : Type) (R : E → Type) (W : Type) (α : Type := Unit) where
  world : W
  code : I → Program E R α

namespace Pool

variable {I E W K α : Type} {R : E → Type}

def Finished (p : Pool I E R W α) : Prop := ∀ i, (p.code i).returned = true

variable [DecidableEq I]

inductive Step (act : Act I E R W) (P : W → I → E → Prop) :
    Pool I E R W α → Pool I E R W α → Prop
  | mk {w w' : W} {code : I → Program E R α} {i : I} {e : E} {next : R e → Program E R α}
      {a : R e} (hcode : code i = .step e next) (hP : P w i e)
      (hact : act i e w = some (a, w')) :
      Step act P ⟨w, code⟩ ⟨w', Function.update code i (next a)⟩

def Reaches (act : Act I E R W) (P : W → I → E → Prop) :
    Pool I E R W α → Pool I E R W α → Prop :=
  Relation.ReflTransGen (Step act P)

section Run

variable {act : Act I E R W} {P : W → I → E → Prop}

/-- A property of the world and of what the threads know that every permitted
effect keeps, if the thread that performs it follows the protocol, holds
throughout every interleaving of threads that do. -/
theorem invariant {T : Protocol E R K} {Q : I → α → K → Prop} {Inv : W → (I → K) → Prop}
    (hvalid : ∀ {i e w a w'}, act i e w = some (a, w') → T.valid e a)
    (hkeep : ∀ {w know i e a w'}, Inv w know → T.guard (know i) e → P w i e →
      act i e w = some (a, w') → Inv w' (Function.update know i (T.learn (know i) e a)))
    {p p' : Pool I E R W α} (hreach : Reaches act P p p') {know : I → K} (hinv : Inv p.world know)
    (hconf : ∀ i, (p.code i).conforms T (Q i) (know i)) :
    ∃ know', Inv p'.world know' ∧ ∀ i, (p'.code i).conforms T (Q i) (know' i) := by
  induction hreach with
  | refl => exact ⟨know, hinv, hconf⟩
  | tail _ hstep ih =>
    obtain ⟨know, hinv, hconf⟩ := ih
    cases hstep with
    | @mk w w' code i e next a hcode hP hact =>
      have hi : (code i).conforms T (Q i) (know i) := hconf i
      rw [hcode] at hi
      refine ⟨_, hkeep hinv hi.1 hP hact, fun j => ?_⟩
      by_cases hj : j = i
      · subst hj
        simpa using hi.2 a (hvalid hact)
      · simpa [hj] using hconf j

omit [DecidableEq I] in
/-- What the threads know once all of them have returned. -/
theorem Finished.know {T : Protocol E R K} {Q : I → K → Prop} {p : Pool I E R W α} {know : I → K}
    (hfin : p.Finished) (hconf : ∀ i, (p.code i).conforms T (fun _ => Q i) (know i)) (i : I) :
    Q i (know i) := by
  have hi := hconf i
  have hdone := hfin i
  cases hcode : p.code i with
  | done a => rwa [hcode] at hi
  | step e next => simp [hcode, Program.returned] at hdone

/-- Let the threads of `schedule` take one step each, in this order, as long as
every step passes `ok`. -/
def exec (act : Act I E R W) (ok : W → I → E → Bool) :
    List I → Pool I E R W α → Option (Pool I E R W α)
  | [], p => some p
  | i :: schedule, p =>
    match p.code i with
    | .done _ => none
    | .step e next =>
      if ok p.world i e then do
        let (a, w) ← act i e p.world
        exec act ok schedule ⟨w, Function.update p.code i (next a)⟩
      else none

theorem reaches_exec {ok : W → I → E → Bool} (hok : ∀ w i e, ok w i e = true → P w i e)
    (schedule : List I) {p p' : Pool I E R W α} (h : exec act ok schedule p = some p') :
    Reaches act P p p' := by
  induction schedule generalizing p with
  | nil =>
    cases h
    exact .refl
  | cons i schedule ih =>
    rw [exec] at h
    cases hcode : p.code i with
    | done a => simp [hcode] at h
    | step e next =>
      cases hstep : ok p.world i e with
      | false => simp [hcode, hstep] at h
      | true =>
        simp only [hcode, hstep, if_true] at h
        obtain ⟨⟨a, w⟩, hact, hrest⟩ := Option.bind_eq_some_iff.mp h
        exact .head (.mk hcode (hok _ _ _ hstep) hact) (ih hrest)

/-- What is seen after `schedule` is seen of a pool that is reached. -/
theorem observed {β : Type} {ok : W → I → E → Bool} (hok : ∀ w i e, ok w i e = true → P w i e)
    (schedule : List I) {p : Pool I E R W α} {f : Pool I E R W α → β} {b : β}
    (h : (exec act ok schedule p).map f = some b) : ∃ p', Reaches act P p p' ∧ f p' = b := by
  obtain ⟨p', hp', hf⟩ := Option.map_eq_some_iff.mp h
  exact ⟨p', reaches_exec hok schedule hp', hf⟩

theorem observed_any {β : Type} (schedule : List I) {p : Pool I E R W α} {f : Pool I E R W α → β}
    {b : β} (h : (exec act (fun _ _ _ => true) schedule p).map f = some b) :
    ∃ p', Reaches act (fun _ _ _ => True) p p' ∧ f p' = b :=
  observed (fun _ _ _ _ => trivial) schedule h

end Run

end Pool

end DurableTasks.Effects
