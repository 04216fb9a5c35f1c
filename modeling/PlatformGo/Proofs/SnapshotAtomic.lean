import PlatformGo.Lib.Joined
import PlatformGo.Ref.SnapshotFiles

/-!
# Saving a snapshot is one step

To its readers a `Save` is the renaming and a `Load` is the opening of the
file: played on a map from paths to snapshots, in this order, they give every
`Load` what it returns (`loads_linearize`). What has to be seen is that a file
is complete before a path of a service leads to it and is not written to
afterwards.

* **Before.** A file that is being written has one name only, a temporary one
  that no other `Save` holds, and no path of a service is a temporary name.
* **Afterwards.** The file is closed. A reader that still has an older file
  open is left with it, complete as it was.

One thing is assumed of the random names. Between its renaming and its
deferred `Remove`, a `Save` still holds a name that is free to the file
system. A second `Save` that is given it just then would have its file removed
by the first, and a third could take the name over and be renamed half
written. `Fresh` says that this does not happen.
-/

namespace PlatformGo.SnapshotFiles

open Files ServiceRegistry PlatformGo.Joined Lts

/-! ## The two kinds of names -/

theorem cleanSegments_concat (rooted : Bool) (out segments : List (List Char))
    {last : List Char} (hlast : 3 ≤ last.length) :
    cleanSegments rooted out (segments ++ [last]) =
      last :: cleanSegments rooted out segments := by
  have hplain : ¬ (last = [] ∨ last = ['.']) ∧ last ≠ ['.', '.'] := by
    refine ⟨?_, ?_⟩
    · rintro (rfl | rfl) <;> simp at hlast
    · rintro rfl
      simp at hlast
  fun_induction cleanSegments rooted out segments <;>
    simp_all [cleanSegments]

/-- Cleaning leaves the last piece of a path, unless it is one of those with a
meaning of their own. -/
theorem cleanPath_getLast? (front : String) {ending : String}
    (hslash : '/' ∉ ending.toList) (hlength : 3 ≤ ending.toList.length) :
    (cleanPath (front ++ ending)).toList.getLast? =
      ending.toList.getLast? := by
  generalize hpath : front ++ ending = path
  rw [← String.toList_inj, String.toList_append] at hpath
  generalize ending.toList = tail at hpath hslash hlength ⊢
  have htail : tail ≠ [] := by
    rintro rfl
    simp at hlength
  obtain ⟨pieces, last, hpieces⟩ := splitOn_append_tail front.toList hslash
  have hlast : last ++ tail ≠ [] := by simp [htail]
  have hend : (last ++ tail).getLast? = tail.getLast? := by
    rw [List.getLast?_append, List.getLast?_eq_some_getLast htail,
      Option.some_or]
  have hbody : ∀ rooted : Bool,
      (String.ofList (['/'].intercalate (cleanSegments rooted []
        (path.toList.splitOn '/')).reverse)).toList.getLast? =
          tail.getLast? := by
    intro rooted
    rw [← hpath, hpieces, cleanSegments_concat _ _ _ (by simp; omega),
      List.reverse_cons, String.toList_ofList, getLast?_intercalate hlast,
      hend]
  unfold cleanPath
  dsimp only
  split
  · rw [String.toList_append, List.getLast?_append, hbody,
      List.getLast?_eq_some_getLast htail, Option.some_or]
  · split
    · next hempty =>
        have hnone := hbody (decide (path.toList.head? = some '/'))
        rw [hempty, List.getLast?_eq_some_getLast htail] at hnone
        cases hnone
    · exact hbody _

/-- A name that `os.CreateTemp` gives. -/
def IsTemp (name : String) : Prop :=
  ∃ store random, name = tempPath store random

/-- The file of a service is never a temporary one, whatever the directories
and the service are called. -/
theorem target_not_temp (store : FileSnapshotStore) (service : String) :
    ¬ IsTemp (store.path service) := by
  rintro ⟨store', random, heq⟩
  have htemp : (tempPath store' random).toList.getLast? = some 'p' :=
    cleanPath_getLast? _ (by decide) (by decide)
  have htarget : (store.path service).toList.getLast? = some 'n' := by
    unfold FileSnapshotStore.path
    split
    · exact cleanPath_getLast? service (by decide) (by decide)
    · exact cleanPath_getLast? _ (by decide) (by decide)
  rw [heq, htemp] at htarget
  cases htarget

/-! ## The map -/

/-- What the store is for: the last snapshot saved under each path. The map
also remembers who was answered what and who has saved what. -/
structure SnapshotMap where
  files : String → Option Snapshot := fun _ => none
  gets : Nat → Option (Option Snapshot) := fun _ => none
  puts : List (Nat × String × Snapshot) := []

inductive MapAction where
  | put (c : Nat) (path : String) (snapshot : Snapshot)
  | get (c : Nat) (path : String)
  deriving DecidableEq, Repr

def SnapshotMap.step (m : SnapshotMap) : MapAction → Option SnapshotMap
  | .put c path snapshot => some { m with
      files := Function.update m.files path (some snapshot)
      puts := m.puts ++ [(c, path, snapshot)] }
  | .get c path => some { m with
      gets := Function.update m.gets c (some (m.files path)) }

/-- What a system call is to the map. -/
def effect (s : Sys) : Action → List MapAction
  | .saving c (.rename none) =>
      (s.saves c).toList.map fun call => .put c call.target call.snapshot
  | .loading c (.opening none) =>
      (s.loads c).toList.map fun call => .get c call.target
  | _ => []

/-! ## What a call holds -/

/-- The file a `Save` may still write to. -/
def SavePhase.writing : SavePhase → Option Temp
  | .chmod temp _ | .write temp _ => some temp
  | _ => none

/-- The file it owns, under its temporary name. -/
def SavePhase.owned : SavePhase → Option Temp
  | .chmod temp _ | .write temp _ | .close temp _ | .rename temp
  | .remove temp (some _) => some temp
  | _ => none

/-- The file whose temporary name it is going to remove. -/
def SavePhase.held : SavePhase → Option Temp
  | .chmod temp _ | .write temp _ | .close temp _ | .rename temp
  | .remove temp _ => some temp
  | _ => none

/-- A random name is not that of a `Save` between its renaming and its
`Remove`. -/
def Fresh (s : Sys) : Action → Prop
  | .saving c (.createTemp random) =>
      ∀ call c' call' temp, s.saves c = some call → s.saves c' = some call' →
        call'.phase = .remove temp none →
        temp.name ≠ tempPath call.store random
  | _ => True

theorem SavePhase.owned_of_writing {phase : SavePhase} {temp : Temp}
    (h : phase.writing = some temp) : phase.owned = some temp := by
  cases phase <;> first | exact h | cases h

theorem SavePhase.held_of_owned {phase : SavePhase} {temp : Temp}
    (h : phase.owned = some temp) : phase.held = some temp := by
  cases phase with
  | remove temp' result =>
      cases result with
      | none => cases h
      | some e => exact h
  | _ => exact h

/-- A `Save` that holds a name owns its file, or has renamed it. -/
theorem SavePhase.held_cases {phase : SavePhase} {temp : Temp}
    (h : phase.held = some temp) :
    phase.owned = some temp ∨ phase = .remove temp none := by
  cases phase with
  | remove temp' result =>
      cases h
      cases result with
      | none => exact .inr rfl
      | some e => exact .inl rfl
  | _ => exact .inl h

def Codec.RoundTrips (codec : Codec) : Prop :=
  ∀ snapshot payload, codec.marshal snapshot = .ok payload →
    codec.unmarshal payload = .ok snapshot

/-- What the file of a `Save` has come to. -/
def Content (codec : Codec) (fs : FileSystem) (call : SaveCall) : Prop :=
  match call.phase with
  | .createTemp payload => codec.marshal call.snapshot = .ok payload
  | .chmod temp payload =>
      codec.marshal call.snapshot = .ok payload ∧ fs.data temp.file = []
  | .write temp rest =>
      codec.marshal call.snapshot = .ok (fs.data temp.file ++ rest)
  | .close temp none | .rename temp =>
      codec.marshal call.snapshot = .ok (fs.data temp.file)
  | _ => True

structure SaveOk (codec : Codec) (fs : FileSystem) (call : SaveCall) :
    Prop where
  temp : ∀ temp, call.phase.held = some temp → IsTemp temp.name
  owns : ∀ temp, call.phase.owned = some temp → fs.Owns temp.name temp.file
  content : Content codec fs call

theorem Content.keep {codec : Codec} {fs fs' : FileSystem} {call : SaveCall}
    (h : Content codec fs call)
    (hdata : ∀ temp, call.phase.owned = some temp →
      fs'.data temp.file = fs.data temp.file) : Content codec fs' call := by
  unfold Content at h ⊢
  split <;> simp_all [SavePhase.owned]

/-- A `Save` does not notice what leaves its file alone. -/
theorem SaveOk.keep {codec : Codec} {fs fs' : FileSystem} {call : SaveCall}
    (h : SaveOk codec fs call)
    (hkeeps : ∀ temp, call.phase.owned = some temp →
      Fs.Keeps fs fs' temp.name temp.file) : SaveOk codec fs' call where
  temp := h.temp
  owns temp htemp := (h.owns temp htemp).keep (hkeeps temp htemp)
  content := h.content.keep fun temp htemp => (hkeeps temp htemp).data

/-- The file holds the encoding of the snapshot, and nobody writes to it. -/
structure Complete (codec : Codec) (s : Sys) (file : Nat)
    (snapshot : Snapshot) : Prop where
  data : codec.marshal snapshot = .ok (s.fs.data file)
  given : file < s.fs.next
  closed : ∀ c call temp, s.saves c = some call →
    call.phase.writing = some temp → temp.file ≠ file

/-- Whether a `Save` has renamed its file. -/
def SavePhase.saved : SavePhase → Bool
  | .remove _ none | .returned none => true
  | _ => false

/-- What a `Save` has put into the map. -/
def SaveCall.put (c : Nat) (call : SaveCall) :
    List (Nat × String × Snapshot) :=
  if call.phase.saved then [(c, call.target, call.snapshot)] else []

/-- What a `Load` has been answered so far. `F` are the errors its system
calls may have given. -/
def LoadOk (codec : Codec) (F : Nat → GoErr → Prop) (s : Sys)
    (m : SnapshotMap) (c : Nat) (call : LoadCall) : Prop :=
  match call.phase with
  | .reading file got => ∃ snapshot, m.gets c = some (some snapshot) ∧
      Complete codec s file snapshot ∧ got <+: s.fs.data file
  | .returned (.ok snapshot) => m.gets c = some (some snapshot)
  | .returned (.error e) => F c e ∨ m.gets c = some none ∧
      e = .wrap ("open " ++ call.target) noSuchFile
  | _ => True

structure Rel (codec : Codec) (F : Nat → GoErr → Prop) (s : Sys)
    (m : SnapshotMap) : Prop where
  numbered : s.fs.Numbered
  files : ∀ path, ¬ IsTemp path →
    Option.Rel (Complete codec s) (s.fs.names path) (m.files path)
  saves : ∀ c call, s.saves c = some call → SaveOk codec s.fs call
  apart : ∀ c c' call call' temp temp', s.saves c = some call →
    s.saves c' = some call' → call.phase.held = some temp →
    call'.phase.held = some temp' → temp.name = temp'.name → c = c'
  loads : ∀ c call, s.loads c = some call → LoadOk codec F s m c call
  puts : ∀ c, match s.saves c with
    | none => (m.puts.filter fun p => p.1 == c) = []
    | some call => call.phase ≠ .gone →
        (m.puts.filter fun p => p.1 == c) = call.put c

/-- Whatever is complete stays complete. -/
def Carries (codec : Codec) (s s' : Sys) : Prop :=
  ∀ file snapshot, Complete codec s file snapshot →
    Complete codec s' file snapshot ∧ s'.fs.data file = s.fs.data file

theorem Carries.files {codec : Codec} {s s' : Sys}
    (hcarries : Carries codec s s') {file : Option Nat}
    {snapshot : Option Snapshot}
    (h : Option.Rel (Complete codec s) file snapshot) :
    Option.Rel (Complete codec s') file snapshot := by
  cases h with
  | some hcomplete => exact .some (hcarries _ _ hcomplete).1
  | none => exact .none

theorem Carries.load {codec : Codec} {s s' : Sys}
    (hcarries : Carries codec s s') {F : Nat → GoErr → Prop}
    {m m' : SnapshotMap} {c : Nat} {load : LoadCall}
    (h : LoadOk codec F s m c load) (hgets : m'.gets c = m.gets c) :
    LoadOk codec F s' m' c load := by
  unfold LoadOk at h ⊢
  rw [hgets]
  split
  · next file got hphase =>
      rw [hphase] at h
      obtain ⟨snapshot, hget, hcomplete, hgot⟩ := h
      obtain ⟨hcomplete', hdata⟩ := hcarries _ _ hcomplete
      exact ⟨snapshot, hget, hcomplete', by rwa [hdata]⟩
  · next hphase => rw [hphase] at h; exact h
  · next hphase => rw [hphase] at h; exact h
  · trivial

/-! ## A step of a `Save` -/

section Saving

variable {codec : Codec} {F : Nat → GoErr → Prop} {s : Sys} {m : SnapshotMap}
  {c : Nat} {call : SaveCall} {fs' : FileSystem} {phase : SavePhase}

/-- What the others may rely on in a step of a `Save` to a new phase. -/
structure Moves (s : Sys) (c : Nat) (call : SaveCall) (fs' : FileSystem)
    (phase : SavePhase) : Prop where
  numbered : fs'.Numbered
  next : s.fs.next ≤ fs'.next
  /-- It writes to no file but its own. -/
  data : ∀ file, file < s.fs.next →
    (∀ temp, call.phase.writing = some temp → temp.file ≠ file) →
    fs'.data file = s.fs.data file
  writing : ∀ temp, phase.writing = some temp →
    call.phase.writing = some temp ∨ temp.file = s.fs.next
  others : ∀ c' call' temp, c' ≠ c → s.saves c' = some call' →
    call'.phase.owned = some temp → Fs.Keeps s.fs fs' temp.name temp.file
  held : ∀ temp, phase.held = some temp → call.phase.held = some temp ∨
    ∀ c' call' temp', s.saves c' = some call' →
      call'.phase.held = some temp' → temp'.name ≠ temp.name

theorem saves_setSave {c' : Nat} {call₁ call' : SaveCall}
    (h : (s.setSave c fs' call₁).saves c' = some call') :
    c' = c ∧ call' = call₁ ∨ c' ≠ c ∧ s.saves c' = some call' := by
  by_cases hc : c' = c
  · subst hc
    simp only [Sys.setSave, Function.update_self, Option.some.injEq] at h
    exact .inl ⟨rfl, h.symm⟩
  · simp only [Sys.setSave, Function.update_of_ne hc] at h
    exact .inr ⟨hc, h⟩

theorem Moves.carries (hmoves : Moves s c call fs' phase)
    (hcall : s.saves c = some call) :
    Carries codec s (s.setSave c fs' { call with phase }) := by
  intro file snapshot h
  have hdata : fs'.data file = s.fs.data file :=
    hmoves.data file h.given fun temp htemp =>
      h.closed c call temp hcall htemp
  refine ⟨⟨?_, Nat.lt_of_lt_of_le h.given hmoves.next, ?_⟩, hdata⟩
  · show codec.marshal snapshot = .ok (fs'.data file)
    rw [hdata]
    exact h.data
  · intro c' call' temp hcall' htemp
    rcases saves_setSave hcall' with ⟨rfl, rfl⟩ | ⟨-, hold⟩
    · rcases hmoves.writing temp htemp with hwas | hnew
      · exact h.closed c' call temp hcall hwas
      · have hgiven := h.given
        omega
    · exact h.closed c' call' temp hold htemp

/-- The relation is kept by a step whose effect on the paths of the services
is that on the map. -/
theorem Rel.move (h : Rel codec F s m) (hcall : s.saves c = some call)
    (hmoves : Moves s c call fs' phase)
    (hown : SaveOk codec fs' { call with phase }) {m' : SnapshotMap}
    (hgets : m'.gets = m.gets)
    (hfiles : ∀ path, ¬ IsTemp path → Option.Rel
      (Complete codec (s.setSave c fs' { call with phase }))
      (fs'.names path) (m'.files path))
    (hputs : (phase ≠ .gone → (m'.puts.filter fun p => p.1 == c) =
        SaveCall.put c { call with phase }) ∧
      ∀ c', c' ≠ c → (m'.puts.filter fun p => p.1 == c') =
        m.puts.filter fun p => p.1 == c') :
    Rel codec F (s.setSave c fs' { call with phase }) m' where
  numbered := hmoves.numbered
  files := hfiles
  saves c' call' hcall' := by
    rcases saves_setSave hcall' with ⟨rfl, rfl⟩ | ⟨hne, hold⟩
    · exact hown
    · exact (h.saves c' call' hold).keep fun temp htemp =>
        hmoves.others c' call' temp hne hold htemp
  apart c₁ c₂ call₁ call₂ temp₁ temp₂ hcall₁ hcall₂ htemp₁ htemp₂ hname := by
    rcases saves_setSave hcall₁ with ⟨rfl, rfl⟩ | ⟨hne₁, hold₁⟩ <;>
    rcases saves_setSave hcall₂ with ⟨rfl, rfl⟩ | ⟨hne₂, hold₂⟩
    · rfl
    · rcases hmoves.held temp₁ htemp₁ with hwas | hnew
      · exact h.apart _ _ call call₂ temp₁ temp₂ hcall hold₂ hwas htemp₂ hname
      · exact absurd hname.symm (hnew c₂ call₂ temp₂ hold₂ htemp₂)
    · rcases hmoves.held temp₂ htemp₂ with hwas | hnew
      · exact h.apart _ _ call₁ call temp₁ temp₂ hold₁ hcall htemp₁ hwas hname
      · exact absurd hname (hnew c₁ call₁ temp₁ hold₁ htemp₁)
    · exact h.apart _ _ call₁ call₂ temp₁ temp₂ hold₁ hold₂ htemp₁ htemp₂ hname
  loads c' load hload := (hmoves.carries hcall).load (h.loads c' load hload)
    (congrFun hgets c')
  puts c' := by
    by_cases hc : c' = c
    · subst hc
      simp only [Sys.setSave, Function.update_self]
      exact hputs.1
    · have hkept := h.puts c'
      simp only [Sys.setSave, Function.update_of_ne hc]
      rw [hputs.2 c' hc]
      exact hkept

/-- And by one that leaves the paths of the services alone. -/
theorem Rel.aside (h : Rel codec F s m) (hcall : s.saves c = some call)
    (hmoves : Moves s c call fs' phase)
    (hown : SaveOk codec fs' { call with phase })
    (hnames : ∀ path, ¬ IsTemp path → fs'.names path = s.fs.names path)
    (hsaved : phase = .gone ∨ phase.saved = call.phase.saved)
    (hrunning : call.phase ≠ .gone) :
    Rel codec F (s.setSave c fs' { call with phase }) m := by
  refine h.move hcall hmoves hown rfl (fun path hpath => ?_)
    ⟨fun hgone => ?_, fun _ _ => rfl⟩
  · rw [hnames path hpath]
    exact (hmoves.carries hcall).files (h.files path hpath)
  · have hwas := h.puts c
    rw [hcall] at hwas
    rw [hwas hrunning, SaveCall.put, SaveCall.put, hsaved.resolve_left hgone]
    rfl

/-- The second phase holds nothing that the first does not. -/
structure SavePhase.Eases (old new : SavePhase) : Prop where
  writing : new.writing = none ∨ new.writing = old.writing
  owned : new.owned = none ∨ new.owned = old.owned
  held : new.held = none ∨ new.held = old.held
  saved : new = .gone ∨ new.saved = old.saved

/-- A step that leaves the file system alone. -/
theorem Rel.quiet (h : Rel codec F s m) (hcall : s.saves c = some call)
    {old : SavePhase} (hphase : call.phase = old) (heases : old.Eases phase)
    (hcontent : Content codec s.fs { call with phase })
    (hrunning : old ≠ .gone) :
    Rel codec F (s.setSave c s.fs { call with phase }) m := by
  have hok := h.saves c call hcall
  subst hphase
  have hfrom : ∀ {new old : Option Temp} {temp}, new = none ∨ new = old →
      new = some temp → old = some temp := by
    rintro new old temp (rfl | rfl) htemp
    · cases htemp
    · exact htemp
  refine h.aside hcall ?_ ⟨?_, ?_, hcontent⟩ (fun _ _ => rfl) heases.saved
    hrunning
  · exact ⟨h.numbered, Nat.le_refl _, fun _ _ _ => rfl,
      fun temp htemp => .inl (hfrom heases.writing htemp),
      fun _ _ _ _ _ _ => ⟨rfl, fun _ hname => hname, rfl⟩,
      fun temp htemp => .inl (hfrom heases.held htemp)⟩
  · exact fun temp htemp => hok.temp temp (hfrom heases.held htemp)
  · exact fun temp htemp => hok.owns temp (hfrom heases.owned htemp)

theorem rel_createTemp (h : Rel codec F s m) (hcall : s.saves c = some call)
    {payload : Bytes} (hphase : call.phase = .createTemp payload)
    {random : Nat} (hfresh : Fresh s (.saving c (.createTemp random)))
    (hcreate : s.fs.create (tempPath call.store random) = some fs') :
    Rel codec F (s.setSave c fs' { call with
      phase := .chmod ⟨tempPath call.store random, s.fs.next⟩ payload }) m := by
  have hok := h.saves c call hcall
  have hfree := (Fs.create_eq_some hcreate).1
  obtain ⟨howns, hempty⟩ := Fs.owns_create h.numbered hcreate
  have hmoves : Moves s c call fs'
      (.chmod ⟨tempPath call.store random, s.fs.next⟩ payload) := by
    refine ⟨Fs.numbered_create h.numbered hcreate, ?_, ?_, ?_, ?_, ?_⟩
    · rw [(Fs.create_eq_some hcreate).2]
      exact Nat.le_succ _
    · exact fun file hfile _ => Fs.data_create hcreate hfile
    · intro temp htemp
      cases htemp
      exact .inr rfl
    · exact fun c' call' temp _ hcall' htemp =>
        Fs.keeps_create h.numbered hcreate
          ((h.saves c' call' hcall').owns temp htemp)
    · intro temp htemp
      cases htemp
      refine .inr fun c' call' temp' hcall' htemp' hname => ?_
      -- the name is free, so only a renamed file could have had it
      rcases SavePhase.held_cases htemp' with howned | hrenamed
      · have hleads := ((h.saves c' call' hcall').owns temp' howned).leads
        rw [hname, hfree] at hleads
        cases hleads
      · exact hfresh call c' call' temp' hcall hcall' hrenamed hname
  refine h.aside hcall hmoves ⟨?_, ?_, ?_⟩ ?_ ?_ ?_
  · intro temp htemp
    cases htemp
    exact ⟨call.store, random, rfl⟩
  · intro temp htemp
    cases htemp
    exact howns
  · have hcontent := hok.content
    rw [Content, hphase] at hcontent
    exact ⟨hcontent, hempty⟩
  · intro path hpath
    refine Fs.names_create_of_ne hcreate ?_
    rintro rfl
    exact hpath ⟨call.store, random, rfl⟩
  · rw [hphase]
    exact .inr rfl
  · rw [hphase]
    exact SavePhase.noConfusion

/-- Two running `Save`s own different files. -/
theorem Rel.file_ne (h : Rel codec F s m) (hcall : s.saves c = some call)
    {temp temp' : Temp} {c' : Nat} {call' : SaveCall} (hne : c' ≠ c)
    (hcall' : s.saves c' = some call') (htemp : call.phase.owned = some temp)
    (htemp' : call'.phase.owned = some temp') :
    temp'.name ≠ temp.name ∧ temp'.file ≠ temp.file := by
  have hname : temp'.name ≠ temp.name := fun heq =>
    hne (h.apart c' c call' call temp' temp hcall' hcall
      (SavePhase.held_of_owned htemp') (SavePhase.held_of_owned htemp) heq)
  exact ⟨hname, ((h.saves c' call' hcall').owns temp' htemp').file_ne
    ((h.saves c call hcall).owns temp htemp) hname⟩

theorem rel_write (h : Rel codec F s m) (hcall : s.saves c = some call)
    {temp : Temp} {rest : Bytes} (hphase : call.phase = .write temp rest)
    (count : Nat) :
    Rel codec F (s.setSave c (s.fs.append temp.file (rest.take count))
      { call with phase :=
        if rest.drop count = [] then .close temp none
        else .write temp (rest.drop count) }) m := by
  have hok := h.saves c call hcall
  have howned : call.phase.owned = some temp := by rw [hphase]; rfl
  have hcontent : codec.marshal call.snapshot = .ok
      ((s.fs.append temp.file (rest.take count)).data temp.file ++
        rest.drop count) := by
    have hwas := hok.content
    rw [Content, hphase] at hwas
    rw [Fs.data_append, List.append_assoc, List.take_append_drop]
    exact hwas
  generalize hnew : (if rest.drop count = [] then SavePhase.close temp none
    else .write temp (rest.drop count)) = phase
  have hnext : phase = .close temp none ∧ rest.drop count = [] ∨
      phase = .write temp (rest.drop count) := by
    split at hnew
    · next hdone => exact .inl ⟨hnew.symm, hdone⟩
    · exact .inr hnew.symm
  have hheld : phase.held = some temp := by
    rcases hnext with ⟨rfl, -⟩ | rfl <;> rfl
  have howned' : phase.owned = some temp := by
    rcases hnext with ⟨rfl, -⟩ | rfl <;> rfl
  refine h.aside hcall ⟨?_, Nat.le_refl _, ?_, ?_, ?_, ?_⟩ ⟨?_, ?_, ?_⟩
    (fun _ _ => rfl) ?_ ?_
  · exact h.numbered
  · intro file _ hother
    refine Fs.data_append_of_ne _ (Ne.symm (hother temp ?_))
    rw [hphase]
    rfl
  · intro temp' htemp'
    rw [← SavePhase.owned_of_writing htemp', howned', hphase]
    exact .inl rfl
  · intro c' call' temp' hne hcall' htemp'
    exact Fs.keeps_append _ (h.file_ne hcall hne hcall' howned htemp').2
  · intro temp' htemp'
    rw [← htemp', hheld]
    exact .inl (SavePhase.held_of_owned howned)
  · intro temp' htemp'
    rw [hheld, Option.some.injEq] at htemp'
    subst htemp'
    exact hok.temp temp (SavePhase.held_of_owned howned)
  · intro temp' htemp'
    rw [howned', Option.some.injEq] at htemp'
    subst htemp'
    exact (hok.owns temp howned).append _
  · rcases hnext with ⟨rfl, hdone⟩ | rfl
    · rw [hdone, List.append_nil] at hcontent
      exact hcontent
    · exact hcontent
  · rw [hphase]
    rcases hnext with ⟨rfl, -⟩ | rfl <;> exact .inr rfl
  · rw [hphase]
    exact SavePhase.noConfusion

theorem rel_remove (h : Rel codec F s m) (hcall : s.saves c = some call)
    {temp : Temp} {result : Option GoErr}
    (hphase : call.phase = .remove temp result) :
    Rel codec F (s.setSave c (s.fs.remove temp.name)
      { call with phase := .returned result }) m := by
  have hok := h.saves c call hcall
  have hheld : call.phase.held = some temp := by rw [hphase]; rfl
  have hmoves : Moves s c call (s.fs.remove temp.name)
      (.returned result) := by
    refine ⟨Fs.numbered_remove h.numbered _, Nat.le_refl _,
      fun _ _ _ => rfl, fun _ htemp => (by cases htemp), ?_,
      fun _ htemp => (by cases htemp)⟩
    intro c' call' temp' hne hcall' htemp'
    refine Fs.keeps_remove fun hname => hne ?_
    exact h.apart c' c call' call temp' temp hcall' hcall
      (SavePhase.held_of_owned htemp') hheld hname
  refine h.aside hcall hmoves
    ⟨fun _ htemp => (by cases htemp), fun _ htemp => (by cases htemp), trivial⟩
    ?_ ?_ ?_
  · intro path hpath
    refine Fs.names_remove_of_ne ?_
    rintro rfl
    exact hpath (hok.temp temp hheld)
  · rw [hphase]
    cases result <;> exact .inr rfl
  · rw [hphase]
    exact SavePhase.noConfusion

/-- The renaming is where the map has the snapshot. -/
theorem rel_rename (h : Rel codec F s m) (hcall : s.saves c = some call)
    {temp : Temp} (hphase : call.phase = .rename temp) :
    s.fs.rename temp.name call.target =
        some (s.fs.move temp.name call.target temp.file) ∧
      Rel codec F (s.setSave c (s.fs.move temp.name call.target temp.file)
          { call with phase := .remove temp none })
        { m with
          files := Function.update m.files call.target (some call.snapshot)
          puts := m.puts ++ [(c, call.target, call.snapshot)] } := by
  have hok := h.saves c call hcall
  have howned : call.phase.owned = some temp := by rw [hphase]; rfl
  have hheld := SavePhase.held_of_owned howned
  have howns := hok.owns temp howned
  have htarget := target_not_temp call.store call.service
  have hne : ∀ {name}, IsTemp name → name ≠ call.target := by
    rintro name hname rfl
    exact htarget hname
  have hmoves : Moves s c call (s.fs.move temp.name call.target temp.file)
      (.remove temp none) := by
    refine ⟨Fs.numbered_move h.numbered howns, Nat.le_refl _,
      fun _ _ _ => rfl, fun _ htemp => (by cases htemp), ?_, ?_⟩
    · intro c' call' temp' hc hcall' htemp'
      have hok' := h.saves c' call' hcall'
      exact Fs.keeps_move (hok'.owns temp' htemp') howns
        (hne (hok'.temp temp' (SavePhase.held_of_owned htemp')))
        (h.file_ne hcall hc hcall' howned htemp').1
    · intro temp' htemp'
      rw [← htemp']
      exact .inl hheld
  refine ⟨Fs.rename_of_owns howns, h.move hcall hmoves ⟨?_, ?_, trivial⟩ rfl
    ?_ ⟨fun _ => ?_, fun c' hc => ?_⟩⟩
  · intro temp' htemp'
    cases htemp'
    exact hok.temp temp hheld
  · exact fun _ htemp' => by cases htemp'
  · intro path hpath
    by_cases hp : path = call.target
    · subst hp
      rw [Fs.names_move_new]
      simp only [Function.update_self]
      refine .some ⟨?_, h.numbered _ _ howns.leads, ?_⟩
      · have hcontent := hok.content
        rw [Content, hphase] at hcontent
        exact hcontent
      · intro c' call' temp' hcall' htemp'
        rcases saves_setSave hcall' with ⟨rfl, rfl⟩ | ⟨hc, hold⟩
        · cases htemp'
        · exact (h.file_ne hcall hc hold howned
            (SavePhase.owned_of_writing htemp')).2
    · have hold : path ≠ temp.name := by
        rintro rfl
        exact hpath (hok.temp temp hheld)
      rw [Fs.names_move_of_ne hp hold]
      simp only [Function.update_of_ne hp]
      exact (hmoves.carries hcall).files (h.files path hpath)
  · have hwas := h.puts c
    rw [hcall] at hwas
    rw [List.filter_append, hwas (by rw [hphase]; exact SavePhase.noConfusion)]
    simp [SaveCall.put, SavePhase.saved, SaveCall.target, hphase]
  · rw [List.filter_append]
    simp [Ne.symm hc]

theorem rel_saving (h : Rel codec F s m) (hcall : s.saves c = some call)
    {event : SaveEvent} (hfresh : Fresh s (.saving c event))
    (hnext : call.next codec s.fs event = some (fs', phase)) :
    ∃ m', run SnapshotMap.step m (effect s (.saving c event)) = some m' ∧
      Rel codec F (s.setSave c fs' { call with phase }) m' := by
  have hok := h.saves c call hcall
  have hcontent := hok.content
  unfold Content at hcontent
  unfold SaveCall.next at hnext
  split at hnext
  · next hphase =>
      cases hnext
      exact ⟨m, rfl, h.quiet hcall hphase
        ⟨.inl rfl, .inl rfl, .inl rfl, .inr rfl⟩ trivial
        SavePhase.noConfusion⟩
  · next hphase =>
      split at hnext
      · cases hnext
      · cases hnext
        refine ⟨m, rfl, ?_⟩
        unfold SaveCall.encode
        split
        · exact h.quiet hcall hphase ⟨.inl rfl, .inl rfl, .inl rfl, .inr rfl⟩
            trivial SavePhase.noConfusion
        · next payload hpayload =>
            exact h.quiet hcall hphase
              ⟨.inl rfl, .inl rfl, .inl rfl, .inr rfl⟩ hpayload
              SavePhase.noConfusion
  · next hphase =>
      cases hnext
      exact ⟨m, rfl, h.quiet hcall hphase
        ⟨.inl rfl, .inl rfl, .inl rfl, .inr rfl⟩ trivial
        SavePhase.noConfusion⟩
  · next payload random hphase =>
      obtain ⟨fs₁, hcreate, heq⟩ := Option.map_eq_some_iff.mp hnext
      cases heq
      exact ⟨m, rfl, rel_createTemp h hcall hphase hfresh hcreate⟩
  · next hphase =>
      cases hnext
      exact ⟨m, rfl, h.quiet hcall hphase
        ⟨.inl rfl, .inr rfl, .inr rfl, .inr rfl⟩ trivial
        SavePhase.noConfusion⟩
  · next hphase =>
      cases hnext
      rw [hphase] at hcontent
      refine ⟨m, rfl, h.quiet hcall hphase
        ⟨.inr rfl, .inr rfl, .inr rfl, .inr rfl⟩ ?_ SavePhase.noConfusion⟩
      unfold Content
      dsimp only
      rw [hcontent.2, List.nil_append]
      exact hcontent.1
  · next hphase =>
      cases hnext
      exact ⟨m, rfl, h.quiet hcall hphase
        ⟨.inl rfl, .inr rfl, .inr rfl, .inr rfl⟩ trivial
        SavePhase.noConfusion⟩
  · next temp rest count hphase =>
      split at hnext
      · cases hnext
      · cases hnext
        exact ⟨m, rfl, rel_write h hcall hphase count⟩
  · next temp err closeErr hphase =>
      cases hnext
      refine ⟨m, rfl, ?_⟩
      rw [hphase] at hcontent
      cases err with
      | some e =>
          exact h.quiet hcall hphase
            ⟨.inl rfl, .inr rfl, .inr rfl, .inr rfl⟩ trivial
            SavePhase.noConfusion
      | none =>
          cases closeErr with
          | some e =>
              exact h.quiet hcall hphase
                ⟨.inl rfl, .inr rfl, .inr rfl, .inr rfl⟩ trivial
                SavePhase.noConfusion
          | none =>
              exact h.quiet hcall hphase
                ⟨.inl rfl, .inr rfl, .inr rfl, .inr rfl⟩ hcontent
                SavePhase.noConfusion
  · next hphase =>
      cases hnext
      exact ⟨m, rfl, h.quiet hcall hphase
        ⟨.inl rfl, .inr rfl, .inr rfl, .inr rfl⟩ trivial
        SavePhase.noConfusion⟩
  · next temp hphase =>
      obtain ⟨hrename, hrel⟩ := rel_rename h hcall hphase
      rw [hrename] at hnext
      cases hnext
      refine ⟨_, ?_, hrel⟩
      rw [effect, hcall]
      rfl
  · next temp result err hphase =>
      cases hnext
      refine ⟨m, rfl, h.quiet hcall hphase
        ⟨.inl rfl, .inl rfl, .inl rfl, .inr ?_⟩ trivial
        SavePhase.noConfusion⟩
      cases result <;> rfl
  · next hphase =>
      cases hnext
      exact ⟨m, rfl, rel_remove h hcall hphase⟩
  · cases hnext
  · cases hnext
  · next hreturned hgone =>
      cases hnext
      refine ⟨m, rfl, h.quiet hcall rfl
        ⟨.inl rfl, .inl rfl, .inl rfl, .inl rfl⟩ trivial hgone⟩
  · cases hnext

/-- A new `Save` holds nothing. -/
theorem rel_save (h : Rel codec F s m) (hnone : s.saves c = none)
    (store : FileSnapshotStore) (service : String) (snapshot : Snapshot) :
    Rel codec F (s.setSave c s.fs { store, service, snapshot }) m := by
  have hcarries : Carries codec s
      (s.setSave c s.fs { store, service, snapshot }) := by
    intro file sn hwas
    refine ⟨⟨hwas.data, hwas.given, fun c' call' temp hcall' htemp => ?_⟩,
      rfl⟩
    rcases saves_setSave hcall' with ⟨rfl, rfl⟩ | ⟨-, hold⟩
    · cases htemp
    · exact hwas.closed c' call' temp hold htemp
  refine ⟨h.numbered, fun path hpath => hcarries.files (h.files path hpath),
    fun c' call' hcall' => ?_, ?_,
    fun c' load hload => hcarries.load (h.loads c' load hload) rfl,
    fun c' => ?_⟩
  · rcases saves_setSave hcall' with ⟨rfl, rfl⟩ | ⟨-, hold⟩
    · exact ⟨fun _ htemp => (by cases htemp), fun _ htemp => (by cases htemp),
        trivial⟩
    · exact h.saves c' call' hold
  · intro c₁ c₂ call₁ call₂ temp₁ temp₂ hcall₁ hcall₂ htemp₁ htemp₂ hname
    rcases saves_setSave hcall₁ with ⟨rfl, rfl⟩ | ⟨-, hold₁⟩
    · cases htemp₁
    · rcases saves_setSave hcall₂ with ⟨rfl, rfl⟩ | ⟨-, hold₂⟩
      · cases htemp₂
      · exact h.apart _ _ call₁ call₂ temp₁ temp₂ hold₁ hold₂ htemp₁ htemp₂
          hname
  · have hwas := h.puts c'
    by_cases hc : c' = c
    · subst hc
      rw [hnone] at hwas
      simp only [Sys.setSave, Function.update_self]
      exact fun _ => hwas
    · simp only [Sys.setSave, Function.update_of_ne hc]
      exact hwas

end Saving

/-! ## A step of a `Load` -/

section Loading

variable {codec : Codec} {F : Nat → GoErr → Prop} {s : Sys} {m : SnapshotMap}
  {c : Nat} {call : LoadCall}

/-- A step of one `Load`, which may be answered by the map, is nothing to the
others. -/
theorem Rel.load (h : Rel codec F s m) {m' : SnapshotMap} {load : LoadCall}
    (hfiles : m'.files = m.files) (hputs : m'.puts = m.puts)
    (hgets : ∀ c', c' ≠ c → m'.gets c' = m.gets c')
    (hload : LoadOk codec F s m' c load) :
    Rel codec F (s.setLoad c load) m' := by
  have hcarries : Carries codec s (s.setLoad c load) := fun _ _ hwas =>
    ⟨⟨hwas.data, hwas.given, hwas.closed⟩, rfl⟩
  refine ⟨h.numbered, fun path hpath => ?_, h.saves, h.apart,
    fun c' load' hload' => ?_, fun c' => ?_⟩
  · rw [hfiles]
    exact hcarries.files (h.files path hpath)
  · by_cases hc : c' = c
    · subst hc
      simp only [Sys.setLoad, Function.update_self, Option.some.injEq]
        at hload'
      subst hload'
      exact hcarries.load hload rfl
    · simp only [Sys.setLoad, Function.update_of_ne hc] at hload'
      exact hcarries.load (h.loads c' load' hload') (hgets c' hc)
  · rw [hputs]
    exact h.puts c'

/-- The errors that befall the system calls of a `Load`. -/
def Failure (F : Nat → GoErr → Prop) : Action → Prop
  | .loading c (.opening (some e)) | .loading c (.readFailed e) => F c e
  | _ => True

theorem rel_loading (hcodec : codec.RoundTrips) (h : Rel codec F s m)
    (hcall : s.loads c = some call) {event : LoadEvent}
    (hfailure : Failure F (.loading c event)) {phase : LoadPhase}
    (hnext : call.next codec s.fs event = some phase) :
    ∃ m', run SnapshotMap.step m (effect s (.loading c event)) = some m' ∧
      Rel codec F (s.setLoad c { call with phase }) m' := by
  have hok := h.loads c call hcall
  unfold LoadOk at hok
  unfold LoadCall.next at hnext
  split at hnext
  · cases hnext
    exact ⟨m, rfl, h.load rfl rfl (fun _ _ => rfl) (.inl hfailure)⟩
  · next hphase =>
      -- The answer is what the path leads to now.
      have hfile := h.files call.target
        (target_not_temp call.store call.service)
      refine ⟨{ m with
        gets := Function.update m.gets c (some (m.files call.target)) }, ?_,
        h.load rfl rfl (fun c' hc => Function.update_of_ne hc ..) ?_⟩
      · rw [effect, hcall]
        rfl
      · split at hnext
        · next hnone =>
            cases hnext
            rw [hnone] at hfile
            refine .inr ⟨?_, rfl⟩
            show Function.update m.gets c (some (m.files call.target)) c =
              some none
            rw [Function.update_self]
            generalize m.files call.target = sn at hfile
            cases hfile
            rfl
        · next file hsome =>
            cases hnext
            rw [hsome] at hfile
            show ∃ sn, Function.update m.gets c (some (m.files call.target)) c =
                some (some sn) ∧ Complete codec s file sn ∧ [] <+: _
            rw [Function.update_self]
            generalize m.files call.target = sn at hfile
            cases hfile with
            | some hcomplete => exact ⟨_, rfl, hcomplete, List.nil_prefix⟩
  · cases hnext
    exact ⟨m, rfl, h.load rfl rfl (fun _ _ => rfl) (.inl hfailure)⟩
  · next file got count hphase =>
      rw [hphase] at hok
      obtain ⟨sn, hget, hcomplete, hgot⟩ := hok
      obtain ⟨more, hmore⟩ := hgot
      have hdrop : (s.fs.data file).drop got.length = more := by
        rw [← hmore, List.drop_left]
      rw [hdrop] at hnext
      split at hnext
      · cases hnext
      · next hcount =>
          refine ⟨m, rfl, h.load rfl rfl (fun _ _ => rfl) ?_⟩
          split at hnext
          · next hend =>
              cases hnext
              have hall : more = [] := by
                rcases List.take_eq_nil_iff.mp hend with hzero | hnil
                · exact absurd hzero hcount
                · exact hnil
              rw [hall, List.append_nil] at hmore
              have hread : codec.unmarshal got = .ok sn := by
                rw [hmore]
                exact hcodec _ _ hcomplete.data
              rw [hread]
              exact hget
          · cases hnext
            refine ⟨sn, hget, hcomplete, more.drop count, ?_⟩
            rw [List.append_assoc, List.take_append_drop, hmore]
  · cases hnext
  · cases hnext
  · cases hnext
    exact ⟨m, rfl, h.load rfl rfl (fun _ _ => rfl) trivial⟩
  · cases hnext

end Loading

/-! ## Runs -/

theorem rel_init (codec : Codec) (F : Nat → GoErr → Prop) :
    Rel codec F {} {} where
  numbered _ _ h := by cases h
  files _ _ := .none
  saves _ _ h := by cases h
  apart _ _ _ _ _ _ h := by cases h
  loads _ _ h := by cases h
  puts _ := rfl

theorem rel_step {codec : Codec} (hcodec : codec.RoundTrips)
    {F : Nat → GoErr → Prop} (s : Sys) (a : Action) (s' : Sys)
    (m : SnapshotMap) (h : Rel codec F s m) (hC : Fresh s a ∧ Failure F a)
    (hstep : step codec s a = some s') :
    ∃ m', run SnapshotMap.step m (effect s a) = some m' ∧
      Rel codec F s' m' := by
  cases a with
  | save c store service snapshot =>
      simp only [step] at hstep
      split at hstep
      · cases hstep
      · next hnone =>
          cases hstep
          exact ⟨m, rfl, rel_save h hnone store service snapshot⟩
  | saving c event =>
      obtain ⟨call, hcall, hnext⟩ := Option.bind_eq_some_iff.mp hstep
      obtain ⟨result, hresult, rfl⟩ := Option.map_eq_some_iff.mp hnext
      exact rel_saving h hcall hC.1 hresult
  | load c store service =>
      simp only [step] at hstep
      split at hstep
      · cases hstep
      · cases hstep
        exact ⟨m, rfl, h.load rfl rfl (fun _ _ => rfl) trivial⟩
  | loading c event =>
      obtain ⟨call, hcall, hnext⟩ := Option.bind_eq_some_iff.mp hstep
      obtain ⟨phase, hphase, rfl⟩ := Option.map_eq_some_iff.mp hnext
      exact rel_loading hcodec h hcall hC.2 hphase

/-- Over any run of `Save`s and `Load`s, with writes and reads in pieces, with
failures and processes that end anywhere: played on the map in the order of
their renamings and openings, they give every `Load` that has returned its
answer, unless one of its own system calls has failed. A `Save` that has
returned nil has put its snapshot once and one that has returned an error
never. At any moment a path leads to the complete encoding of the snapshot the
map has there, or to nothing if it has none. -/
theorem loads_linearize {codec : Codec} (hcodec : codec.RoundTrips)
    {as : List Action} {s : Sys} (hrun : run (step codec) {} as = some s)
    (hfresh : ∀ p ∈ steps (step codec) {} as, Fresh p.1 p.2) :
    ∃ m, run SnapshotMap.step {} ((steps (step codec) {} as).flatMap
        fun p => effect p.1 p.2) = some m ∧
      (∀ c call, s.loads c = some call →
        (∀ snapshot, call.phase = .returned (.ok snapshot) →
          m.gets c = some (some snapshot)) ∧
        ∀ e, call.phase = .returned (.error e) →
          (m.gets c = some none ∧
            e = .wrap ("open " ++ call.target) noSuchFile) ∨
          .loading c (.opening (some e)) ∈ as ∨
          .loading c (.readFailed e) ∈ as) ∧
      (∀ c call result, s.saves c = some call →
        call.phase = .returned result →
        (m.puts.filter fun p => p.1 == c) =
          if result = none then [(c, call.target, call.snapshot)] else []) ∧
      ∀ store service, Option.Rel
        (fun file snapshot => codec.marshal snapshot = .ok (s.fs.data file))
        (s.fs.names (FileSnapshotStore.path store service))
        (m.files (store.path service)) := by
  have hfailure : ∀ p ∈ steps (step codec) {} as, Failure
      (fun c e => .loading c (.opening (some e)) ∈ as ∨
        .loading c (.readFailed e) ∈ as) p.2 := by
    intro p hp
    have hmem := action_mem hp
    generalize p.2 = a at hmem
    unfold Failure
    split
    · exact .inl hmem
    · exact .inr hmem
    · trivial
  obtain ⟨m, hm, hrel⟩ := run_effects
    (fun s a s' m h hC hs => rel_step hcodec s a s' m h hC hs)
    (rel_init codec _) (fun p hp => ⟨hfresh p hp, hfailure p hp⟩) hrun
  refine ⟨m, hm, fun c call hcall => ?_, fun c call result hcall hphase => ?_,
    fun store service => ?_⟩
  · have hload := hrel.loads c call hcall
    unfold LoadOk at hload
    constructor
    · intro snapshot hphase
      rw [hphase] at hload
      exact hload
    · intro e hphase
      rw [hphase] at hload
      exact hload.symm
  · have hput := hrel.puts c
    rw [hcall] at hput
    rw [hput (by rw [hphase]; exact SavePhase.noConfusion), SaveCall.put,
      hphase]
    cases result <;> rfl
  · have hfile := hrel.files _ (target_not_temp store service)
    generalize s.fs.names (store.path service) = file,
      m.files (store.path service) = snapshot at hfile
    cases hfile with
    | some hcomplete => exact .some hcomplete.data
    | none => exact .none

/-! ## A run -/

def orderSnapshot : Snapshot :=
  ⟨7, 0, [{ instanceId := "orders-0", status := .healthy }]⟩

/-- An encoding of one snapshot. -/
def orderCodec : Codec where
  marshal snapshot :=
    if snapshot = orderSnapshot then .ok [1, 2, 3]
    else .error (.sentinel "unsupported")
  unmarshal payload :=
    if payload = [1, 2, 3] then .ok orderSnapshot
    else .error (.sentinel "unexpected end of JSON input")

theorem orderCodec_roundTrips : orderCodec.RoundTrips := by
  intro snapshot payload h
  simp only [orderCodec] at h ⊢
  split at h
  · next heq =>
      cases h
      rw [if_pos rfl, heq]
  · cases h

/-- One `Save` in pieces, with a `Load` before the renaming and one that
begins after it. -/
def orderRun : List Action :=
  [.save 0 ⟨"/var/cache"⟩ "orders" orderSnapshot,
   .saving 0 (.mkdirAll none), .saving 0 (.createTemp 42),
   .saving 0 (.chmod none), .saving 0 (.write 2),
   .load 0 ⟨"/var/cache"⟩ "orders", .loading 0 (.opening none),
   .saving 0 (.write 1), .saving 0 (.close none),
   .saving 0 (.rename none), .load 1 ⟨"/var/cache"⟩ "orders",
   .loading 1 (.opening none), .loading 1 (.read 2), .saving 0 (.remove none),
   .loading 1 (.read 9), .loading 1 (.read 9)]

theorem loads_linearize_order :
    ∃ s m, run (step orderCodec) {} orderRun = some s ∧
      run SnapshotMap.step {} ((steps (step orderCodec) {} orderRun).flatMap
        fun p => effect p.1 p.2) = some m ∧
      m.gets 1 = some (some orderSnapshot) := by
  have hfresh : ∀ p ∈ steps (step orderCodec) {} orderRun,
      Fresh p.1 p.2 := by
    intro p hp
    obtain ⟨pre, post, hsplit, hpre⟩ := mem_steps hp
    unfold Fresh
    split
    · next c random heq =>
        rw [heq] at hsplit
        rcases pre with _ | ⟨x, _ | ⟨y, _ | ⟨z, rest⟩⟩⟩
        · simp [orderRun] at hsplit
        · simp [orderRun] at hsplit
        · simp only [orderRun, List.cons_append, List.nil_append,
            List.cons.injEq] at hsplit
          obtain ⟨rfl, rfl, -⟩ := hsplit
          rw [← Option.some.inj hpre]
          intro call c' call' temp _ hcall' hrenamed
          rcases saves_setSave hcall' with ⟨-, rfl⟩ | ⟨hne, hold⟩
          · cases hrenamed
          · rcases saves_setSave hold with ⟨rfl, -⟩ | ⟨-, hnone⟩
            · exact absurd rfl hne
            · cases hnone
        · have hmem : Action.saving c (.createTemp random) ∈
              orderRun.drop 3 := by
            rw [hsplit]
            simp
          simp [orderRun] at hmem
    · trivial
  obtain ⟨m, hm, hloads, -, -⟩ :=
    @loads_linearize _ orderCodec_roundTrips orderRun _ rfl hfresh
  exact ⟨_, m, rfl, hm, (hloads 1 _ rfl).1 _ rfl⟩

-- What `Fresh` rules out: the name 42 is given to three `Save`s in turn.
example :
    ((run (step orderCodec) {}
      [.save 0 ⟨"/var/cache"⟩ "orders" orderSnapshot,
       .saving 0 (.mkdirAll none), .saving 0 (.createTemp 42),
       .saving 0 (.chmod none), .saving 0 (.write 3), .saving 0 (.close none),
       .saving 0 (.rename none),
       .save 1 ⟨"/var/cache"⟩ "orders" orderSnapshot,
       .saving 1 (.mkdirAll none), .saving 1 (.createTemp 42),
       .saving 1 (.chmod none), .saving 1 (.write 3), .saving 1 (.close none),
       .saving 0 (.remove none),
       .save 2 ⟨"/var/cache"⟩ "orders" orderSnapshot,
       .saving 2 (.mkdirAll none), .saving 2 (.createTemp 42),
       .saving 2 (.chmod none), .saving 2 (.write 1),
       .saving 1 (.rename none)]).bind fun s =>
        (s.fs.names "/var/cache/orders.json").map s.fs.data) = some [1] := by
  decide

end PlatformGo.SnapshotFiles
