import Mathlib.Data.List.Basic
import Mathlib.Data.List.Infix
import LDS.Storage.DriverData

/-!
# Watching the plugin directory

`DirMonitor` has a thread that reads the events of the plugin directory. The file of an event, if its name
is that of a plugin, goes to all subscribers of the dispatcher; `SoLoader` opens it. Nobody on the way from
the subscriber to the thread catches an exception. The thread itself throws for an event that names no watch,
as the one does that reports an overflow of the queue.

## Main definitions

* `PluginSubscriber`, `FileEvent`: who is told of a plugin, and what comes of it
* `DirMonitor.notifyAll`, `DirMonitor.handle`, `DirMonitor.trigger`, `DirMonitor.readLoop`: the delivery, the
  handler, the look-up of the watch, and the thread
* `FileEvent.Contained`: no subscriber throws

## Main results

* `DirMonitor.readLoop_ok_iff`: when the thread survives
* `DirMonitor.contained_iff`: when exactly bad plugins are contained
-/

namespace LDS

/-- The subscribers of the plugin dispatcher: plugin loaders, and others. -/
inductive PluginSubscriber (ι : Type)
  | soLoader (loader : Nat)
  | other (sub : ι)

/-- An event that `read` brings: the descriptor of its watch, which is `-1` when the queue has run over, and the
name of its file. With it goes what `dlopen` yields when each loader is told of the file, a handle or the text of
`dlerror`, and how `Notify` of the other subscribers ends. -/
structure FileEvent (ι : Type) where
  wd : Int
  name : String
  dlopen : Nat → Except String Nat
  other : ι → Outcome Unit

/-- What a `read` of the inotify descriptor yields: it fails, or it brings one event or more. -/
inductive InotifyRead (ι : Type)
  | fails
  | events (first : FileEvent ι) (behind : List (FileEvent ι))

/-- A monitor: the descriptors of the watches it has, the handles that each loader has opened, and the messages
that have been received. -/
structure DirMonitor (ι : Type) where
  dirName : String
  watchSet : List Int
  subs : List (PluginSubscriber ι)
  libs : List (Nat × Nat)
  received : List (PluginSubscriber ι × String)

variable {ι : Type}

namespace FileEvent

/-- The file name contains `.so`. -/
def IsPlugin (e : FileEvent ι) : Prop := ".so".toList <:+: e.name.toList

instance (e : FileEvent ι) : Decidable e.IsPlugin :=
  inferInstanceAs (Decidable (".so".toList <:+: e.name.toList))

/-- How `Notify` of a subscriber ends. -/
def ends (e : FileEvent ι) : PluginSubscriber ι → Outcome Unit
  | .soLoader loader =>
    match e.dlopen loader with
    | .error what => .throws ("dlopen failed: " ++ what)
    | .ok _ => .ok ()
  | .other sub => e.other sub

/-- The handle that a subscriber gets. -/
def opened (e : FileEvent ι) : PluginSubscriber ι → Option (Nat × Nat)
  | .soLoader loader => (e.dlopen loader).toOption.map (loader, ·)
  | .other _ => none

end FileEvent

namespace DirMonitor

/-- `SoLoader::OnLoad`. -/
def onLoad (e : FileEvent ι) (loader : Nat) (s : DirMonitor ι) : Outcome Unit × DirMonitor ι :=
  match e.dlopen loader with
  | .error what => (.throws ("dlopen failed: " ++ what), s)
  | .ok handle => (.ok (), { s with libs := s.libs ++ [(loader, handle)] })

/-- `Notify` of a subscriber. -/
def notify (e : FileEvent ι) (path : String) (sub : PluginSubscriber ι) (s : DirMonitor ι) :
    Outcome Unit × DirMonitor ι :=
  let s' := { s with received := s.received ++ [(sub, path)] }
  match sub with
  | .soLoader loader => onLoad e loader s'
  | .other sub => (e.other sub, s')

/-- `Dispatcher::NotifyAll`, over the subscribers from one on. -/
def notifyAll (e : FileEvent ι) (path : String) : List (PluginSubscriber ι) → DirMonitor ι →
    Outcome Unit × DirMonitor ι
  | [], s => (.ok (), s)
  | sub :: subs, s =>
    match notify e path sub s with
    | (.ok (), s') => notifyAll e path subs s'
    | r => r

/-- The file of an event. -/
def fullPath (s : DirMonitor ι) (e : FileEvent ι) : String := s.dirName ++ "/" ++ e.name

/-- `DirMonitorHandler::handle`, which never asks to terminate. -/
def handle (e : FileEvent ι) (s : DirMonitor ι) : Outcome Bool × DirMonitor ι :=
  if e.IsPlugin then
    match notifyAll e (s.fullPath e) s.subs s with
    | (.ok (), s') => (.ok false, s')
    | (.throws what, s') => (.throws what, s')
    | (.undefined, s') => (.undefined, s')
  else (.ok false, s)

/-- `InotifyEvent::trigger`, with the watch that `readLoop` has looked up. The one handler of a watch is the
`DirMonitorHandler`. -/
def trigger (e : FileEvent ι) (s : DirMonitor ι) : Outcome Bool × DirMonitor ι :=
  if e.wd ∈ s.watchSet then handle e s
  else (.throws "an InotifyEvent has been orphaned by its Watch", s)

/-- `InotifyManager::readLoop`. The first event of a read is handled, and no other one. The result of `read` is kept
in an unsigned integer, so that after a failure the loop takes its event from a buffer that nothing was read into.
An exception that leaves the thread terminates the process. -/
def readLoop : List (InotifyRead ι) → DirMonitor ι → Outcome Unit × DirMonitor ι
  | [], s => (.ok (), s)
  | .fails :: _, s => (.undefined, s)
  | .events e _ :: reads, s =>
    match trigger e s with
    | (.ok false, s') => readLoop reads s'
    | (.ok true, s') => (.ok (), s')
    | (.throws what, s') => (.throws what, s')
    | (.undefined, s') => (.undefined, s')

/-! ## A delivery -/

variable {e : FileEvent ι} {s : DirMonitor ι} {path : String} {sub : PluginSubscriber ι}
  {subs : List (PluginSubscriber ι)}

theorem notify_eq (e : FileEvent ι) (path : String) (sub : PluginSubscriber ι) (s : DirMonitor ι) :
    notify e path sub s = (e.ends sub, { s with
      libs := s.libs ++ (e.opened sub).toList
      received := s.received ++ [(sub, path)] }) := by
  cases sub with
  | soLoader loader =>
    cases hdlopen : e.dlopen loader <;>
      simp [notify, onLoad, FileEvent.ends, FileEvent.opened, hdlopen, Except.toOption]
  | other sub => simp [notify, FileEvent.ends, FileEvent.opened]

/-- The messages and handles of a delivery that nobody breaks off. -/
def delivered (e : FileEvent ι) (path : String) (subs : List (PluginSubscriber ι)) (s : DirMonitor ι) :
    DirMonitor ι :=
  { s with
    libs := s.libs ++ subs.filterMap e.opened
    received := s.received ++ subs.map (·, path) }

/-- A delivery ends when all subscribers have had the message, or with the first of them that throws. -/
theorem notifyAll_ok_iff : (notifyAll e path subs s).1 = .ok () ↔ ∀ sub ∈ subs, e.ends sub = .ok () := by
  induction subs generalizing s with
  | nil => exact ⟨fun _ => nofun, fun _ => rfl⟩
  | cons sub subs ih =>
    rw [notifyAll, notify_eq, List.forall_mem_cons]
    cases hends : e.ends sub with
    | ok => exact ih.trans (by simp)
    | throws what => simp
    | undefined => simp

theorem notifyAll_of_ok (h : ∀ sub ∈ subs, e.ends sub = .ok ()) :
    notifyAll e path subs s = (.ok (), delivered e path subs s) := by
  induction subs generalizing s with
  | nil => simp [notifyAll, delivered]
  | cons sub subs ih =>
    obtain ⟨hsub, hsubs⟩ := List.forall_mem_cons.mp h
    rw [notifyAll, notify_eq, hsub]
    refine (ih hsubs).trans ?_
    cases hopened : e.opened sub <;> simp [delivered, hopened]

/-! ## The thread -/

end DirMonitor

/-- No subscriber throws when it is told of the file. -/
def FileEvent.Contained (e : FileEvent ι) (subs : List (PluginSubscriber ι)) : Prop :=
  e.IsPlugin → ∀ sub ∈ subs, e.ends sub = .ok ()

namespace InotifyRead

/-- The event that is handled. -/
def first? : InotifyRead ι → Option (FileEvent ι)
  | fails => none
  | events e _ => some e

/-- The events that come behind it. -/
def behind : InotifyRead ι → List (FileEvent ι)
  | fails => []
  | events _ es => es

/-- The thread survives the read: it brings an event of a watch, and no subscriber throws. -/
def Survived (s : DirMonitor ι) : InotifyRead ι → Prop
  | fails => False
  | events e _ => e.wd ∈ s.watchSet ∧ e.Contained s.subs

end InotifyRead

namespace DirMonitor

variable {e : FileEvent ι} {s : DirMonitor ι} {reads : List (InotifyRead ι)}

/-- The events of plugins that are handled. -/
def handled (reads : List (InotifyRead ι)) : List (FileEvent ι) :=
  (reads.filterMap InotifyRead.first?).filter (·.IsPlugin)

/-- The events of plugins. -/
def plugins (reads : List (InotifyRead ι)) : List (FileEvent ι) :=
  (reads.flatMap fun r => r.first?.toList ++ r.behind).filter (·.IsPlugin)

/-- The state when all subscribers have been told of the files. -/
def deliveredAll (events : List (FileEvent ι)) (s : DirMonitor ι) : DirMonitor ι :=
  { s with
    libs := s.libs ++ events.flatMap fun e => s.subs.filterMap e.opened
    received := s.received ++ events.flatMap fun e => s.subs.map (·, s.fullPath e) }

theorem deliveredAll_of_nil (hsubs : s.subs = []) (events : List (FileEvent ι)) :
    deliveredAll events s = s := by
  have hlibs : events.flatMap (fun e => s.subs.filterMap e.opened) = [] :=
    List.flatMap_eq_nil_iff.mpr fun e _ => by rw [hsubs]; rfl
  have hreceived : events.flatMap (fun e => s.subs.map (·, s.fullPath e)) = [] :=
    List.flatMap_eq_nil_iff.mpr fun e _ => by rw [hsubs]; rfl
  rw [deliveredAll, hlibs, hreceived, List.append_nil, List.append_nil]

theorem handle_of_contained (h : e.Contained s.subs) :
    handle e s = (.ok false, if e.IsPlugin then delivered e (s.fullPath e) s.subs s else s) := by
  rw [handle]
  split
  · rw [notifyAll_of_ok (h ‹_›)]
  · rfl

/-- An exception of a subscriber leaves `handle`. -/
theorem handle_of_not_contained (h : ¬ e.Contained s.subs) :
    ∃ what, (handle e s).1 = .throws what ∨ (handle e s).1 = .undefined := by
  obtain ⟨hplugin, hsubs⟩ := Classical.not_imp.mp h
  rw [handle, if_pos hplugin]
  cases hr : notifyAll e (s.fullPath e) s.subs s with
  | mk outcome s' =>
    cases outcome with
    | ok =>
      have hok : (notifyAll e (s.fullPath e) s.subs s).1 = .ok () := by rw [hr]
      exact absurd (notifyAll_ok_iff.mp hok) hsubs
    | throws what => exact ⟨what, .inl rfl⟩
    | undefined => exact ⟨"", .inr rfl⟩

/-- An exception of a subscriber leaves the thread, and so does the one for an event without a watch. -/
theorem trigger_ok_iff : (∃ b, (trigger e s).1 = .ok b) ↔ e.wd ∈ s.watchSet ∧ e.Contained s.subs := by
  rw [trigger]
  by_cases hwatch : e.wd ∈ s.watchSet
  · rw [if_pos hwatch]
    by_cases hcontained : e.Contained s.subs
    · rw [handle_of_contained hcontained]
      exact ⟨fun _ => ⟨hwatch, hcontained⟩, fun _ => ⟨false, rfl⟩⟩
    · refine ⟨fun h => ?_, fun h => absurd h.2 hcontained⟩
      obtain ⟨b, hb⟩ := h
      obtain ⟨what, h | h⟩ := handle_of_not_contained hcontained
      · cases hb.symm.trans h
      · cases hb.symm.trans h
  · rw [if_neg hwatch]
    refine ⟨fun h => ?_, fun h => absurd h.1 hwatch⟩
    obtain ⟨b, hb⟩ := h
    cases hb

theorem trigger_of_contained (hwatch : e.wd ∈ s.watchSet) (h : e.Contained s.subs) :
    trigger e s = (.ok false, if e.IsPlugin then delivered e (s.fullPath e) s.subs s else s) := by
  rw [trigger, if_pos hwatch, handle_of_contained h]

/-- The thread goes on as long as it survives what it reads. -/
theorem readLoop_of_survived (h : ∀ r ∈ reads, r.Survived s) :
    readLoop reads s = (.ok (), deliveredAll (handled reads) s) := by
  induction reads generalizing s with
  | nil => simp [readLoop, deliveredAll, handled]
  | cons r reads ih =>
    obtain ⟨hr, hreads⟩ := List.forall_mem_cons.mp h
    cases r with
    | fails => exact hr.elim
    | events e es =>
      rw [readLoop, trigger_of_contained hr.1 hr.2]
      by_cases hplugin : e.IsPlugin
      · have hhandled : handled (.events e es :: reads) = e :: handled reads :=
          List.filter_cons_of_pos (decide_eq_true hplugin)
        simp only [if_pos hplugin, hhandled]
        -- a delivery leaves the watches and the subscribers as they are
        refine (ih (s := delivered e (s.fullPath e) s.subs s) hreads).trans ?_
        simp [deliveredAll, delivered, fullPath]
      · have hhandled : handled (.events e es :: reads) = handled reads :=
          List.filter_cons_of_neg (by simpa using hplugin)
        simp only [if_neg hplugin, hhandled]
        exact ih hreads

theorem readLoop_ok_iff : (readLoop reads s).1 = .ok () ↔ ∀ r ∈ reads, r.Survived s := by
  constructor
  · intro hok
    induction reads generalizing s with
    | nil => exact fun r hr => absurd hr List.not_mem_nil
    | cons r reads ih =>
      cases r with
      | fails => cases hok
      | events e es =>
        have hsurvived : e.wd ∈ s.watchSet ∧ e.Contained s.subs := by
          apply trigger_ok_iff.mp
          rw [readLoop] at hok
          cases htrigger : trigger e s with
          | mk outcome s' =>
            rw [htrigger] at hok
            cases outcome with
            | ok b => exact ⟨b, rfl⟩
            | throws what => cases hok
            | undefined => cases hok
        rw [readLoop, trigger_of_contained hsurvived.1 hsurvived.2] at hok
        refine List.forall_mem_cons.mpr ⟨hsurvived, ?_⟩
        have hrest := ih hok
        split at hrest <;> exact hrest
  · intro h
    rw [readLoop_of_survived h]

/-! ## The events behind the first of a read -/

/-- Every event of a plugin is handled, or comes behind the first of a read. -/
theorem length_plugins (reads : List (InotifyRead ι)) : (plugins reads).length =
    (handled reads).length + ((reads.flatMap InotifyRead.behind).filter (·.IsPlugin)).length := by
  induction reads with
  | nil => rfl
  | cons r reads ih =>
    cases r with
    | fails => exact ih
    | events e es =>
      simp only [plugins, handled, InotifyRead.first?, InotifyRead.behind, ← List.countP_eq_length_filter,
        List.flatMap_cons, List.filterMap_cons, Option.toList_some, List.countP_append, List.countP_cons,
        List.countP_nil] at ih ⊢
      omega

theorem plugins_eq_handled (h : ∀ r ∈ reads, ∀ e ∈ r.behind, ¬ e.IsPlugin) : plugins reads = handled reads := by
  induction reads with
  | nil => rfl
  | cons r reads ih =>
    obtain ⟨hr, hreads⟩ := List.forall_mem_cons.mp h
    have hbehind : r.behind.filter (·.IsPlugin) = [] := by
      simpa [List.filter_eq_nil_iff] using hr
    have hrest := ih hreads
    cases r with
    | fails => exact hrest
    | events e es =>
      simp only [plugins, handled, List.flatMap_cons, List.filterMap_cons, List.filter_append] at hrest ⊢
      rw [hrest, hbehind, List.append_nil]
      by_cases hplugin : e.IsPlugin <;> simp [InotifyRead.first?, hplugin]

/-- **A bad plugin is contained if and only if there is none**: the thread goes on, every subscriber receives
every plugin and every plugin that can be opened is opened, when no subscriber throws, no `read` fails and no event
comes without a watch; and, if there are subscribers, no plugin comes behind the first event of a read. -/
theorem contained_iff (reads : List (InotifyRead ι)) (s : DirMonitor ι) :
    let result := readLoop reads s
    result.1 = .ok () ∧ result.2 = deliveredAll (plugins reads) s ↔
      (∀ r ∈ reads, r.Survived s) ∧ (s.subs = [] ∨ ∀ r ∈ reads, ∀ e ∈ r.behind, ¬ e.IsPlugin) := by
  intro result
  constructor
  · rintro ⟨hok, hresult⟩
    have hsurvived := readLoop_ok_iff.mp hok
    refine ⟨hsurvived, ?_⟩
    by_cases hsubs : s.subs = []
    · exact .inl hsubs
    right
    -- as many messages as there would be without the events that are not handled
    have hdelivered : deliveredAll (handled reads) s = deliveredAll (plugins reads) s := by
      rw [← hresult]
      exact (congrArg Prod.snd (readLoop_of_survived hsurvived)).symm
    have hreceived := congrArg (fun s => s.received.length) hdelivered
    simp only [deliveredAll, List.length_append, List.length_flatMap, List.length_map, List.map_const',
      List.sum_replicate, smul_eq_mul] at hreceived
    have hlen : (handled reads).length = (plugins reads).length := by
      have hpos : 0 < s.subs.length := List.length_pos_of_ne_nil hsubs
      exact Nat.eq_of_mul_eq_mul_right hpos (Nat.add_left_cancel hreceived)
    have hnone : ((reads.flatMap InotifyRead.behind).filter (·.IsPlugin)).length = 0 := by
      have := length_plugins reads
      omega
    intro r hr e he hplugin
    have hmem : e ∈ (reads.flatMap InotifyRead.behind).filter (·.IsPlugin) :=
      List.mem_filter.mpr ⟨List.mem_flatMap.mpr ⟨r, hr, he⟩, decide_eq_true hplugin⟩
    rw [List.length_eq_zero_iff.mp hnone] at hmem
    cases hmem
  · rintro ⟨hsurvived, hbehind⟩
    change (readLoop reads s).1 = _ ∧ (readLoop reads s).2 = _
    rw [readLoop_of_survived hsurvived]
    refine ⟨rfl, ?_⟩
    rcases hbehind with hsubs | hbehind
    · rw [deliveredAll_of_nil hsubs, deliveredAll_of_nil hsubs]
    · rw [plugins_eq_handled hbehind]

/-- A file that is still empty when it is found: `dlopen` fails. -/
theorem bad_plugin_escapes : ¬ ∀ (reads : List (InotifyRead Unit)) (s : DirMonitor Unit),
    let result := readLoop reads s
    result.1 = .ok () ∧ result.2 = deliveredAll (plugins reads) s := by
  intro h
  have hok := (h [.events ⟨1, "plugin.so", fun _ => .error "file too short", fun _ => .ok ()⟩ []]
    ⟨"plugins/", [1], [.soLoader 0], [], []⟩).1
  cases hok

end DirMonitor

end LDS
