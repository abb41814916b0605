import DurableTasks.Standalone.Engine

/-!
The activity functions run one at a time, when no store access fails.
-/

namespace DurableTasks.Standalone

open Effects

def Act.spec {α : Type} (x : Act α) (Q : Except String α → Shard → Prop) (s : Shard) : Prop :=
  specOf activityHandler (fun _ _ => True) (fun _ _ => True) x Q s

namespace Act

variable {α β : Type} {s : Shard}

@[simp] theorem spec_pure {Q : Post α Shard} (a : α) :
    Act.spec (pure a) Q s ↔ Q (.ok a) s := Iff.rfl

@[simp] theorem spec_throw {Q : Post α Shard} (e : String) :
    Act.spec (throw e : Act α) Q s ↔ Q (.error e) s := Iff.rfl

@[simp] theorem spec_bind {Q : Post β Shard} (x : Act α) (f : α → Act β) :
    Act.spec (x >>= f) Q s ↔
      Act.spec x (fun res s' => match res with
        | .ok a => Act.spec (f a) Q s'
        | .error e => Q (.error e) s') s :=
  specOf.bind_iff x f (fun _ _ => Iff.rfl) fun _ _ => Iff.rfl

theorem spec_mono {Q Q' : Post α Shard} (hQ : ∀ a s, Q a s → Q' a s)
    (x : Act α) (hx : Act.spec x Q s) : Act.spec x Q' s :=
  specOf.mono hQ x hx

@[simp] theorem spec_attempt {x : Act α} {Q : Post (Except String α) Shard} :
    Act.spec (attempt x) Q s ↔ Act.spec x (fun res s' => Q (.ok res) s') s :=
  specOf.lift_run_iff

theorem free_access {P : Prop} : (True → True ∧ P) ↔ P := by simp

@[simp] theorem spec_describeNamespace {name : String} {Q : Post (Option Namespace) Shard} :
    Act.spec (describeNamespace name) Q s ↔ Q (.ok (s.world.store.get (.ns name))) s :=
  free_access

@[simp] theorem spec_get {k : ActivityKey} {Q : Post (Option k.Val) Shard} :
    Act.spec (get k) Q s ↔ Q (.ok (s.acts.get k)) s :=
  free_access

@[simp] theorem spec_describeActivity {r : RunRef} {Q : Post (Option StandaloneActivity) Shard} :
    Act.spec (describeActivity r) Q s ↔ Q (.ok (s.acts.get (.act r))) s :=
  free_access

@[simp] theorem spec_put {k : ActivityKey} {v : k.Val} {Q : Post Unit Shard} :
    Act.spec (put k v) Q s ↔ Q (.ok ()) (s.put k v) :=
  free_access

@[simp] theorem spec_del {k : ActivityKey} {Q : Post Unit Shard} :
    Act.spec (del k) Q s ↔ Q (.ok ()) (s.del k) :=
  free_access

@[simp] theorem spec_listRows {ns : String} {Q : Post (List (RunRef × StandaloneActivity)) Shard} :
    Act.spec (listRows ns) Q s ↔ Q (.ok (s.acts.rows ns)) s :=
  free_access

@[simp] theorem spec_listEvents {r : RunRef} {Q : Post (List (Nat × ActivityEvent)) Shard} :
    Act.spec (listEvents r) Q s ↔ Q (.ok (s.acts.events r)) s :=
  free_access

@[simp] theorem spec_listRequests {ns id : String} {Q : Post (List (String × String)) Shard} :
    Act.spec (listRequests ns id) Q s ↔ Q (.ok (s.acts.requests ns id)) s :=
  free_access

@[simp] theorem spec_now {Q : Post Nat Shard} :
    Act.spec now Q s ↔ Q (.ok s.time) s.tick :=
  free_access

@[simp] theorem spec_nowRFC3339 {Q : Post Nat Shard} :
    Act.spec nowRFC3339 Q s ↔ Q (.ok (rfc3339 s.time)) s.tick := by
  simp only [nowRFC3339, spec_bind, spec_now, spec_pure]

@[simp] theorem spec_newRunId {Q : Post String Shard} :
    Act.spec newRunId Q s ↔ Q (.ok s.world.nextId) s.mint :=
  free_access

@[simp] theorem spec_withClaim {ns : String} {body : Act α} {Q : Post α Shard} :
    Act.spec (withClaim ns body) Q s ↔ Act.spec body Q s := by
  have hlock : ∀ {Q : Post Unit Shard} {s : Shard},
      (Act.spec (call (.lock ns)) Q s ↔ Q (.ok ()) s) ∧
        (Act.spec (call (.unlock ns)) Q s ↔ Q (.ok ()) s) :=
    ⟨free_access, free_access⟩
  simp only [withClaim, spec_bind, hlock, spec_attempt]
  rfl

theorem spec_forM_cons {l : List β} {b : β} {f : β → Act Unit} {Q : Post Unit Shard} :
    Act.spec ((b :: l).forM f) Q s ↔ Act.spec (f b >>= fun _ => l.forM f) Q s := Iff.rfl

theorem spec_delAll {keys : List ActivityKey} {Q : Post Unit Shard} :
    Act.spec (delAll keys) Q s ↔
      Q (.ok ()) { s with acts := keys.foldl ActivityStore.del s.acts } := by
  induction keys generalizing s with
  | nil => exact Iff.rfl
  | cons k keys ih =>
    rw [delAll, spec_forM_cons, spec_bind, spec_del]
    exact ih

theorem run_of_spec {x : Act α} {Q : Shard → Prop} (hx : Act.spec x (fun _ s' => Q s') s) :
    Q ((drop x).run activityHandler s).2 := by
  have hrun := Program.wp_of_run x.run hx
  rwa [drop, Program.run_bind]

end Act

end DurableTasks.Standalone

/-! ## An event is appended -/

namespace DurableTasks

namespace ActivityStore

variable {s : ActivityStore} {r c : RunRef} {a : StandaloneActivity} {t : Nat}
  {attrs : ActivityEventAttrs}

def appended (s : ActivityStore) (r : RunRef) (a : StandaloneActivity) (t : Nat)
    (attrs : ActivityEventAttrs) : ActivityStore :=
  (s.put (.ahist r (a.historyLength + 1))
    { eventId := a.historyLength + 1, eventTime := t, attrs := attrs }).put (.act r)
      { a with historyLength := a.historyLength + 1 }

theorem get_appended_row : (s.appended r a t attrs).get (.act r) =
    some { a with historyLength := a.historyLength + 1 } := by
  simp [appended]

theorem get_appended_event : (s.appended r a t attrs).get (.ahist r (a.historyLength + 1)) =
    some { eventId := a.historyLength + 1, eventTime := t, attrs := attrs } := by
  rw [appended, get_put_of_ne _ _ (by simp), get_put_self]

theorem get_appended_of_ne {id : Nat} (h : id ≠ a.historyLength + 1) :
    (s.appended r a t attrs).get (.ahist r id) = s.get (.ahist r id) := by
  rw [appended, get_put_of_ne _ _ (by simp), get_put_of_ne _ _ (by simpa using h)]

theorem get_appended_row_other (hc : c ≠ r) :
    (s.appended r a t attrs).get (.act c) = s.get (.act c) := by
  rw [appended, get_put_of_ne _ _ (by simpa using hc), get_put_of_ne _ _ (by simp)]

theorem get_appended_event_other (hc : c ≠ r) (id : Nat) :
    (s.appended r a t attrs).get (.ahist c id) = s.get (.ahist c id) := by
  rw [appended, get_put_of_ne _ _ (by simp), get_put_of_ne _ _ (by simp [hc])]

end ActivityStore

namespace Standalone

open Effects

theorem spec_appendActivityHistory {Q : Post ActivityEvent Shard} {r : RunRef} {s : Shard}
    {a : StandaloneActivity} {attrs : ActivityEventAttrs} (ha : s.acts.get (.act r) = some a) :
    Act.spec (appendActivityHistory r attrs) Q s ↔
      Q (.ok ⟨a.historyLength + 1, rfc3339 s.time, attrs⟩)
        { s.tick with acts := s.acts.appended r a (rfc3339 s.time) attrs } := by
  simp only [appendActivityHistory, Act.spec_bind, Act.spec_attempt, Act.spec_describeActivity, ha,
    Act.spec_nowRFC3339, Act.spec_put, Act.spec_pure]
  rfl

end Standalone

end DurableTasks
