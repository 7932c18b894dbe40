import LDS.Library.Trace

/-!
# The dispatcher

`Dispatcher` keeps its subscribers in a vector, and `NotifyAll` goes through it with an iterator. A subscriber
that is notified can register and unregister: the vector changes under the iterator, which stays where it is,
and so does the end that it is to come to.

## Main definitions

* `Dispatcher`, `Dispatcher.register`, `Dispatcher.unRegister`: the vector
* `Delivery`: what a call of `NotifyAll` is about
* `Broker.Step`: the steps of a dispatcher and of its deliveries
* `Broker.Harmless`: a change of the subscribers that does no harm to the delivery

## Main results

* `Dispatcher.filter_moments`: those who stay subscribed stay in their order
* `Broker.Sound.step`: the iterator is inside the vector, behind those who have been called
* `Broker.delivery_sound`: everybody who stays subscribed is called once, and in order
-/

namespace LDS

/-- The subscribers, how many of them the storage of the vector has room for, and which storage it is. -/
structure Dispatcher (ι : Type) where
  subs : List ι
  capacity : Nat
  storage : Nat
  length_le : subs.length ≤ capacity

namespace Dispatcher

variable {ι : Type} [DecidableEq ι]

/-- A dispatcher that has just been constructed. -/
def new : Dispatcher ι := ⟨[], 0, 0, Nat.le_refl 0⟩

/-- `Register`. A vector that is full moves to a storage of twice the size. -/
def register (sub : ι) (d : Dispatcher ι) : Dispatcher ι :=
  if h : d.subs.length < d.capacity then
    { d with
      subs := d.subs ++ [sub]
      length_le := by
        rw [List.length_append, List.length_singleton]
        omega }
  else
    { subs := d.subs ++ [sub]
      capacity := max 1 (2 * d.subs.length)
      storage := d.storage + 1
      length_le := by
        rw [List.length_append, List.length_singleton]
        omega }

/-- `UnRegister`. -/
def unRegister (sub : ι) (d : Dispatcher ι) : Dispatcher ι :=
  { d with
    subs := d.subs.filter (· ≠ sub)
    length_le := (List.length_filter_le _ _).trans d.length_le }

end Dispatcher

/-- What a subscriber does to the dispatcher: its constructor registers it, its destructor unregisters it. -/
inductive Change (ι : Type)
  | register (sub : ι)
  | unRegister (sub : ι)

namespace Dispatcher

variable {ι : Type} [DecidableEq ι] {d : Dispatcher ι} {c : Change ι} {n : Nat}

def change (d : Dispatcher ι) : Change ι → Dispatcher ι
  | .register sub => d.register sub
  | .unRegister sub => d.unRegister sub

/-- The subscribers at every moment of a sequence of changes. -/
def moments (d : Dispatcher ι) : List (Change ι) → List (List ι)
  | [] => []
  | c :: changes => (d.change c).subs :: (d.change c).moments changes

omit [DecidableEq ι] in
@[simp] theorem subs_register (sub : ι) : (d.register sub).subs = d.subs ++ [sub] := by
  rw [register]
  split <;> rfl

/-- Those who are subscribed once before and after a change stay in their order, and where they are or in
front of it. -/
theorem filter_change {p : ι → Bool} (hbefore : ∀ y, p y → d.subs.count y = 1)
    (hafter : ∀ y, p y → (d.change c).subs.count y = 1) (hdrop : (d.subs.drop n).filter p = []) :
    (d.change c).subs.filter p = d.subs.filter p ∧ ((d.change c).subs.drop n).filter p = [] := by
  cases c with
  | register sub =>
    -- one that registers would be subscribed twice
    have hsub : p sub = false := by
      by_contra hp
      have h₁ := hbefore sub (by simpa using hp)
      have h₂ := hafter sub (by simpa using hp)
      simp [change, h₁] at h₂
    constructor
    · simp [change, List.filter_append, hsub]
    · rw [change, subs_register, List.drop_append, List.filter_append, hdrop, List.nil_append]
      apply List.filter_eq_nil_iff.mpr
      intro y hy
      rw [List.mem_singleton.mp (List.mem_of_mem_drop hy), hsub]
      nofun
  | unRegister sub =>
    -- one that unregisters would be subscribed no more
    have hsub : ∀ y, p y → y ≠ sub := by
      rintro y hy rfl
      have h := hafter y hy
      simp [change, unRegister, List.count_eq_zero_of_not_mem] at h
    constructor
    · change (d.subs.filter _).filter p = _
      rw [List.filter_filter]
      apply List.filter_congr
      intro y _
      cases hy : p y with
      | false => rfl
      | true => simpa using hsub y hy
    · apply List.filter_eq_nil_iff.mpr
      intro y hy
      -- those behind the place come from behind the place, as the vector only gets shorter
      have hmem : y ∈ d.subs.drop n := by
        change y ∈ (d.subs.filter _).drop n at hy
        rw [← List.take_append_drop n d.subs, List.filter_append, List.drop_append,
          List.drop_eq_nil_of_le ((List.length_filter_le _ _).trans (List.length_take_le _ _)),
          List.nil_append] at hy
        exact List.mem_of_mem_filter (List.mem_of_mem_drop hy)
      exact List.filter_eq_nil_iff.mp hdrop y hmem

/-- **Those who stay subscribed stay in their order**, whatever the changes. -/
theorem filter_moments {p : ι → Bool} (changes : List (Change ι))
    (hp : ∀ y, p y → ∀ v ∈ d.subs :: d.moments changes, v.count y = 1)
    (hdrop : (d.subs.drop n).filter p = []) :
    ∀ v ∈ d.moments changes, v.filter p = d.subs.filter p ∧ (v.drop n).filter p = [] := by
  induction changes generalizing d with
  | nil => exact fun v hv => by cases hv
  | cons c changes ih =>
    obtain ⟨hfilter, hdrop'⟩ := filter_change (c := c) (fun y hy => hp y hy _ List.mem_cons_self)
      (fun y hy => hp y hy _ (List.mem_cons_of_mem _ List.mem_cons_self)) hdrop
    intro v hv
    rcases List.mem_cons.mp hv with rfl | hv
    · exact ⟨hfilter, hdrop'⟩
    · obtain ⟨h₁, h₂⟩ := ih (fun y hy v hv => hp y hy v (List.mem_cons_of_mem _ hv)) hdrop' v hv
      exact ⟨h₁.trans hfilter, h₂⟩

theorem mem_moments_foldl (changes : List (Change ι)) :
    (changes.foldl change d).subs ∈ d.subs :: d.moments changes := by
  induction changes generalizing d with
  | nil => exact List.mem_cons_self
  | cons c changes ih => exact List.mem_cons_of_mem _ ih

end Dispatcher

/-! ## Deliveries -/

/-- A call of `NotifyAll`: where its iterators point to, the position of the first one and that of the end,
whom it has called, and the subscribers at every moment since it began. -/
structure Delivery (ι : Type) where
  storage : Nat
  pos : Nat
  stop : Nat
  calls : List ι
  start : List ι
  moments : List (List ι)

namespace Delivery

variable {ι : Type} [DecidableEq ι]

/-- `NotifyAll` begins. -/
def new (d : Dispatcher ι) : Delivery ι where
  storage := d.storage
  pos := 0
  stop := d.subs.length
  calls := []
  start := d.subs
  moments := [d.subs]

/-- A subscriber has been notified, and the iterator is moved on. -/
def next (sub : ι) (changes : List (Change ι)) (d : Dispatcher ι) (x : Delivery ι) : Delivery ι :=
  { x with
    pos := x.pos + 1
    calls := x.calls ++ [sub]
    moments := x.moments ++ d.moments changes }

end Delivery

/-- A dispatcher, and the delivery that goes on. -/
structure Broker (ι : Type) where
  dispatcher : Dispatcher ι
  delivery : Option (Delivery ι)

namespace Broker

variable {ι : Type} [DecidableEq ι]

/-- A change while nothing is delivered, the beginning of a delivery, a `Notify` with the changes that the
subscriber makes, and the end of the delivery. -/
inductive Action (ι : Type)
  | change (c : Change ι)
  | notifyAll
  | notify (sub : ι) (changes : List (Change ι))
  | finish

/-- The steps. The iterators of a delivery point into the storage that the vector had when it began. -/
inductive Step : Broker ι → Action ι → Broker ι → Prop
  | change {s : Broker ι} {c : Change ι} (h : s.delivery = none) :
      Step s (.change c) { s with dispatcher := s.dispatcher.change c }
  | notifyAll {s : Broker ι} (h : s.delivery = none) :
      Step s .notifyAll { s with delivery := some (.new s.dispatcher) }
  | notify {s : Broker ι} {x : Delivery ι} {sub : ι} {changes : List (Change ι)} (h : s.delivery = some x)
      (hpos : x.pos < x.stop) (hstorage : s.dispatcher.storage = x.storage)
      (hsub : s.dispatcher.subs[x.pos]? = some sub) :
      Step s (.notify sub changes)
        ⟨changes.foldl Dispatcher.change s.dispatcher, some (x.next sub changes s.dispatcher)⟩
  | finish {s : Broker ι} {x : Delivery ι} (h : s.delivery = some x) (hpos : x.pos = x.stop) :
      Step s .finish { s with delivery := none }

/-- The iterator that is to be read points into storage that was freed, or behind the vector. -/
def Outside (s : Broker ι) : Prop :=
  ∃ x, s.delivery = some x ∧ x.pos < x.stop ∧
    (s.dispatcher.storage ≠ x.storage ∨ s.dispatcher.subs.length ≤ x.pos)

/-- The changes of a `Notify` that is not the last one of its delivery leave the vector in its storage and
those who have been called in their places, and for every subscriber that they take away there is a new one. -/
def Harmless (s : Broker ι) (act : Action ι) : Prop :=
  ∀ x sub changes, s.delivery = some x → act = .notify sub changes → x.pos + 1 < x.stop →
    let d := changes.foldl Dispatcher.change s.dispatcher
    d.storage = s.dispatcher.storage ∧ d.subs.take (x.pos + 1) = s.dispatcher.subs.take (x.pos + 1) ∧
      x.stop ≤ d.subs.length

end Broker

/-- A subscriber that has been registered once throughout the delivery. -/
def Delivery.Registered {ι : Type} [DecidableEq ι] (x : Delivery ι) (sub : ι) : Prop :=
  ∀ v ∈ x.moments, v.count sub = 1

instance {ι : Type} [DecidableEq ι] (x : Delivery ι) : DecidablePred x.Registered :=
  fun sub => inferInstanceAs (Decidable (∀ v ∈ x.moments, v.count sub = 1))

/-! ## Sound deliveries -/

/-- Whom a delivery has called are those in front of its iterator, at some moment at which the vector was as
long as it is to be read. Those who have been registered all the time are in their order and are to be
reached. -/
structure Delivery.Sound {ι : Type} [DecidableEq ι] (x : Delivery ι) (d : Dispatcher ι) : Prop where
  pos_le : x.pos ≤ x.stop
  storage_eq : x.pos < x.stop → d.storage = x.storage
  stop_le : x.pos < x.stop → x.stop ≤ d.subs.length
  calls_eq : x.pos < x.stop → x.calls = d.subs.take x.pos
  exists_calls : ∃ v ∈ x.moments, x.calls = v.take x.pos ∧ x.stop ≤ v.length
  mem_moments : d.subs ∈ x.moments
  start_mem : x.start ∈ x.moments
  filter_eq : ∀ p : ι → Bool, (∀ y, p y → x.Registered y) →
    ∀ v ∈ x.moments, v.filter p = x.start.filter p ∧ (v.drop x.stop).filter p = []

namespace Broker

variable {ι : Type} [DecidableEq ι] {s s' : Broker ι} {act : Action ι} {tr : List (Action ι)} {x : Delivery ι}

/-- The delivery that goes on is sound. -/
def Sound (s : Broker ι) : Prop := ∀ x, s.delivery = some x → x.Sound s.dispatcher

theorem sound_new (d : Dispatcher ι) : (Delivery.new d).Sound d where
  pos_le := Nat.zero_le _
  storage_eq _ := rfl
  stop_le _ := Nat.le_refl _
  calls_eq _ := rfl
  exists_calls := ⟨d.subs, List.mem_singleton_self _, rfl, Nat.le_refl _⟩
  mem_moments := List.mem_singleton_self _
  start_mem := List.mem_singleton_self _
  filter_eq p _ v hv := by
    obtain rfl := List.mem_singleton.mp hv
    refine ⟨rfl, ?_⟩
    change (d.subs.drop d.subs.length).filter p = []
    rw [List.drop_length]
    rfl

/-- A step keeps the delivery sound, if it does no harm. -/
theorem Sound.step (h : s.Sound) (hs : Where Harmless Step s act s') : s'.Sound := by
  obtain ⟨hharmless, hs⟩ := hs
  cases hs with
  | change hnone => exact fun x hx => by cases hnone.symm.trans hx
  | notifyAll =>
    rintro x ⟨⟩
    exact sound_new s.dispatcher
  | finish => exact fun x hx => by cases hx
  | @notify x sub changes hx hpos hstorage hsub =>
    rintro _ ⟨⟩
    have hsound := h x hx
    have hafter : x.pos + 1 < x.stop → _ := hharmless x sub changes hx rfl
    have hcalls : x.calls ++ [sub] = s.dispatcher.subs.take (x.pos + 1) := by
      rw [hsound.calls_eq hpos, List.take_add_one, hsub]
      rfl
    refine ⟨hpos, fun hlt => (hafter hlt).1.trans hstorage, fun hlt => (hafter hlt).2.2,
      fun hlt => hcalls.trans (hafter hlt).2.1.symm, ?_, ?_, ?_, ?_⟩
    · exact ⟨_, List.mem_append_left _ hsound.mem_moments, hcalls, hsound.stop_le hpos⟩
    · -- the vector after the changes is that of the last moment
      rcases List.mem_cons.mp (Dispatcher.mem_moments_foldl (d := s.dispatcher) changes) with heq | hmem
      · exact heq ▸ List.mem_append_left _ hsound.mem_moments
      · exact List.mem_append_right _ hmem
    · exact List.mem_append_left _ hsound.start_mem
    · intro p hp v hv
      have hold := hsound.filter_eq p fun y hy v hv => hp y hy v (List.mem_append_left _ hv)
      rcases List.mem_append.mp hv with hv | hv
      · exact hold v hv
      · obtain ⟨hfilter, hdrop⟩ := hold _ hsound.mem_moments
        have hmoments : ∀ y, p y → ∀ v ∈ s.dispatcher.subs :: s.dispatcher.moments changes, v.count y = 1 := by
          intro y hy v hv
          rcases List.mem_cons.mp hv with rfl | hv
          · exact hp y hy _ (List.mem_append_left _ hsound.mem_moments)
          · exact hp y hy v (List.mem_append_right _ hv)
        obtain ⟨h₁, h₂⟩ := Dispatcher.filter_moments changes hmoments hdrop v hv
        exact ⟨h₁.trans hfilter, h₂⟩

theorem sound_run (hr : Trace (Where Harmless Step) ⟨.new, none⟩ tr s) : s.Sound := by
  refine hr.invariant (I := fun _ s => s.Sound) (fun x hx => by cases hx) ?_
  exact fun tr s act s' hs h => h.step hs

/-- **Delivery survives changes that do no harm.** The iterator never leaves the vector, whoever is called is
subscribed, and when a delivery has come to its end everybody who was registered once throughout has been
called once, in the order of registration. -/
theorem delivery_sound (hr : Trace (Where Harmless Step) ⟨.new, none⟩ tr s) : ¬ s.Outside ∧
    (∀ sub changes s', Step s (.notify sub changes) s' → sub ∈ s.dispatcher.subs) ∧
      ∀ x, s.delivery = some x → x.pos = x.stop → (∀ sub, x.Registered sub → x.calls.count sub = 1) ∧
        x.calls.filter (x.Registered ·) = x.start.filter (x.Registered ·) := by
  have hsound := sound_run hr
  refine ⟨?_, ?_, fun x hx hend => ?_⟩
  · rintro ⟨x, hx, hlt, hstorage | hlen⟩
    · exact hstorage ((hsound x hx).storage_eq hlt)
    · exact absurd ((hsound x hx).stop_le hlt) (by omega)
  · intro sub changes s' hs
    cases hs with
    | notify _ _ _ hsub => exact List.mem_of_getElem? hsub
  · have h := hsound x hx
    obtain ⟨v, hv, hcalls, -⟩ := h.exists_calls
    obtain ⟨hfilter, hdrop⟩ := h.filter_eq (x.Registered ·) (fun y hy => of_decide_eq_true hy) v hv
    -- nobody registered throughout is left behind the end
    have horder : x.calls.filter (x.Registered ·) = x.start.filter (x.Registered ·) := by
      rw [← hfilter, hcalls, hend]
      nth_rewrite 2 [← List.take_append_drop x.stop v]
      rw [List.filter_append, hdrop, List.append_nil]
    refine ⟨fun sub hsub => ?_, horder⟩
    -- the order determines how often each was called
    have hcount : ∀ l : List ι, (l.filter (x.Registered ·)).count sub = l.count sub :=
      fun l => List.count_filter (p := fun y => decide (x.Registered y)) (decide_eq_true hsub)
    rw [← hcount, horder, hcount]
    exact hsub _ h.start_mem

theorem harmless_notify {sub : ι} {changes : List (Change ι)} (hx : s.delivery = some x)
    (h : x.pos + 1 < x.stop → (changes.foldl Dispatcher.change s.dispatcher).storage = s.dispatcher.storage ∧
      (changes.foldl Dispatcher.change s.dispatcher).subs.take (x.pos + 1) = s.dispatcher.subs.take (x.pos + 1) ∧
      x.stop ≤ (changes.foldl Dispatcher.change s.dispatcher).subs.length) : s.Harmless (.notify sub changes) := by
  intro y sub' changes' hy he hlt
  obtain rfl := Option.some.inj (hx.symm.trans hy)
  obtain ⟨rfl, rfl⟩ := Action.notify.inj he
  exact h hlt

/-- The first of three subscribers registers a fourth one, for which there is room. -/
theorem delivery_sound_register : ∃ tr, ∃ s : Broker Nat, Trace (Where Harmless Step) ⟨.new, none⟩ tr s ∧
    (∃ x, s.delivery = some x ∧ x.pos = x.stop ∧ x.calls = [0, 1, 2]) ∧
      (¬ s.Outside ∧ (∀ sub changes s', Step s (.notify sub changes) s' → sub ∈ s.dispatcher.subs) ∧
        ∀ x, s.delivery = some x → x.pos = x.stop → (∀ sub, x.Registered sub → x.calls.count sub = 1) ∧
          x.calls.filter (x.Registered ·) = x.start.filter (x.Registered ·)) := by
  have hr : Trace (Where Harmless Step) (⟨.new, none⟩ : Broker Nat) [.change (.register 0), .change (.register 1),
      .change (.register 2), .notifyAll, .notify 0 [.register 3], .notify 1 [], .notify 2 []] _ :=
    .cons ⟨nofun, .change rfl⟩ <| .cons ⟨nofun, .change rfl⟩ <| .cons ⟨nofun, .change rfl⟩ <|
      .cons ⟨nofun, .notifyAll rfl⟩ <|
      .cons ⟨harmless_notify rfl (by decide), .notify rfl (by decide) rfl rfl⟩ <|
      .cons ⟨harmless_notify rfl (by decide), .notify rfl (by decide) rfl rfl⟩ <|
      .cons ⟨harmless_notify rfl (by decide), .notify rfl (by decide) rfl rfl⟩ .nil
  exact ⟨_, _, hr, ⟨_, rfl, rfl, rfl⟩, delivery_sound hr⟩

/-- The first of three subscribers unregisters: the second one is passed over, and there is no third. -/
theorem unregister_first : ¬ ∀ (tr : List (Action Nat)) (s : Broker Nat), Trace Step ⟨.new, none⟩ tr s →
    ¬ s.Outside ∧ (∀ sub changes s', Step s (.notify sub changes) s' → sub ∈ s.dispatcher.subs) ∧
      ∀ x, s.delivery = some x → x.pos = x.stop → (∀ sub, x.Registered sub → x.calls.count sub = 1) ∧
        x.calls.filter (x.Registered ·) = x.start.filter (x.Registered ·) := by
  intro h
  have hr : Trace Step (⟨.new, none⟩ : Broker Nat) [.change (.register 0), .change (.register 1),
      .change (.register 2), .notifyAll, .notify 0 [.unRegister 0], .notify 2 []] _ :=
    .cons (.change rfl) <| .cons (.change rfl) <| .cons (.change rfl) <| .cons (.notifyAll rfl) <|
      .cons (.notify rfl (by decide) rfl rfl) <| .cons (.notify rfl (by decide) rfl rfl) .nil
  exact (h _ _ hr).1 ⟨_, rfl, by decide, .inr (by decide)⟩

end Broker

end LDS
