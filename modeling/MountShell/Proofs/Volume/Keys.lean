import Mathlib.Data.List.Basic
import MountShell.Proofs.Volume.Store

/-!
# The store as a map from keys to texts

What the store answers to any sequence of calls.  The store in memory has one text for each key.  A
directory has one text for each name of a file, and `Store.fileName` gives one name to many keys, so
that it answers what the store in memory answers to calls about the names in place of the keys.

Main statement: `Outside.directory_answers`, which also tells when a directory answers what the
store in memory answers to the same calls.
-/

namespace MountShell

/-! ### Calls and what was put last -/

/-- One use of the store. -/
inductive StoreCall where
  | get (key : String)
  | set (key text : String)
  deriving DecidableEq, Repr

namespace StoreCall

/-- The text that a call puts under a key of the given name. -/
def puts? (nameOf : String → String) (name : String) : StoreCall → Option String
  | get _ => none
  | set key text => if nameOf key = name then some text else none

/-- The call with a name in place of its key. -/
def rename (nameOf : String → String) : StoreCall → StoreCall
  | get key => get (nameOf key)
  | set key text => set (nameOf key) text

/-- The text that was put last under a key of the given name. -/
def lastPut (nameOf : String → String) (name : String) (calls : List StoreCall) : Option String :=
  calls.reverse.findSome? (puts? nameOf name)

variable {nameOf : String → String} {name : String} {calls : List StoreCall}

/-- Reading puts nothing. -/
theorem lastPut_append_get (key : String) :
    lastPut nameOf name (calls ++ [get key]) = lastPut nameOf name calls := by
  rw [lastPut, List.reverse_append, List.reverse_singleton, List.singleton_append,
    List.findSome?_cons_of_isNone (by rfl), lastPut]

/-- A text that is set is the last one for the name of its key. -/
theorem lastPut_append_set (key text : String) :
    lastPut nameOf name (calls ++ [set key text]) =
      if nameOf key = name then some text else lastPut nameOf name calls := by
  by_cases hname : nameOf key = name <;> simp [lastPut, puts?, hname]

/-- What was put last for a name is told by the names of the keys. -/
theorem lastPut_map_rename (nameOf : String → String) (name : String) (calls : List StoreCall) :
    lastPut id name (calls.map (rename nameOf)) = lastPut nameOf name calls := by
  have hcall : puts? id name ∘ rename nameOf = puts? nameOf name := by
    funext call
    cases call <;> rfl
  rw [lastPut, ← List.map_reverse, List.findSome?_map, hcall, lastPut]

/-! ### One text for each name -/

/-- What is answered to calls after others if there is one text for each name of a key. -/
def answersByName (nameOf : String → String) :
    List StoreCall → List StoreCall → List (Except StoreError (Option String))
  | _, [] => []
  | before, get key :: calls =>
    .ok (lastPut nameOf (nameOf key) before) :: answersByName nameOf (before ++ [get key]) calls
  | before, set key text :: calls =>
    .ok none :: answersByName nameOf (before ++ [set key text]) calls

/-- So are all answers. -/
theorem answersByName_map_rename (nameOf : String → String) (before calls : List StoreCall) :
    answersByName id (before.map (rename nameOf)) (calls.map (rename nameOf)) =
      answersByName nameOf before calls := by
  induction calls generalizing before with
  | nil => rfl
  | cons call calls ih =>
    have htail := ih (before ++ [call])
    rw [List.map_append, List.map_singleton] at htail
    cases call with
    | get key => simpa [rename, answersByName, lastPut_map_rename] using htail
    | set key text => simpa [rename, answersByName] using htail

/-- A property of each get with the calls before it, by the first call. -/
theorem forall_get_cons {holds : List StoreCall → String → Prop} (call : StoreCall)
    (calls : List StoreCall) :
    (∀ before key after, call :: calls = before ++ get key :: after → holds before key) ↔
      (∀ key, call = get key → holds [] key) ∧
        ∀ before key after, calls = before ++ get key :: after → holds (call :: before) key := by
  constructor
  · intro h
    refine ⟨fun key hcall => h [] key calls (by rw [hcall, List.nil_append]), ?_⟩
    intro before key after hcalls
    exact h (call :: before) key after (by rw [hcalls, List.cons_append])
  · rintro ⟨hfirst, hrest⟩ before key after hcalls
    cases before with
    | nil => exact hfirst key (List.cons.inj hcalls).1
    | cons own before =>
      obtain ⟨rfl, htail⟩ := List.cons.inj hcalls
      exact hrest before key after htail

/-- The answers by two kinds of names are the same if every get is answered the same. -/
theorem answersByName_eq_iff (first second : String → String) (done calls : List StoreCall) :
    answersByName first done calls = answersByName second done calls ↔
      ∀ before key after, calls = before ++ get key :: after →
        lastPut first (first key) (done ++ before) =
          lastPut second (second key) (done ++ before) := by
  induction calls generalizing done with
  | nil => simp [answersByName]
  | cons call calls ih =>
    rw [forall_get_cons]
    have htail := ih (done ++ [call])
    simp only [List.append_assoc, List.singleton_append] at htail
    rw [List.append_nil, ← htail]
    cases call <;> simp [answersByName]

end StoreCall

/-! ### What the store answers -/

namespace Outside

open StoreCall

/-- What the store answers to a call: the text under the key, or nothing once the text has been put
there. -/
def serve (o : Outside) : StoreCall → Except StoreError (Option String) × Outside
  | .get key => (o.stored key, o)
  | .set key text => ((o.keep key text).1.map fun _ => none, (o.keep key text).2)

/-- What the store answers to calls, one after the other. -/
def answers (o : Outside) : List StoreCall → List (Except StoreError (Option String))
  | [] => []
  | call :: calls => (o.serve call).1 :: (o.serve call).2.answers calls

/-- A store that answers gives what it holds. -/
theorem eq_held_of_stored {o : Outside} {key : String} {content : Option String}
    (h : o.stored key = .ok content) : content = o.held key := by
  unfold stored at h
  unfold held
  cases hstore : o.store with
  | memory entries refuseGet refuseSet =>
    simp only [hstore] at h
    cases refuseGet with
    | true => exact absurd h (by simp)
    | false => exact (Except.ok.inj h).symm
  | directory dir =>
    simp only [hstore] at h ⊢
    cases hread : o.disk.read (Disk.inside dir (Store.fileName key)) with
    | ok body =>
      rw [hread] at h
      exact (Except.ok.inj h).symm
    | error e =>
      rw [hread] at h
      cases e with
      | noEntry => exact (Except.ok.inj h).symm
      | _ => exact absurd h (by simp)

/-- A text that is put into a store of this kind is there for the keys of the same name, and for no
other. -/
structure ByName (nameOf : String → String) (kind : Outside → Prop) : Prop where
  stays : ∀ {o : Outside} {key text : String}, kind o → (o.keep key text).1 = .ok () →
    kind (o.keep key text).2
  held_keep : ∀ {o : Outside} {key text : String}, kind o → (o.keep key text).1 = .ok () →
    ∀ other, (o.keep key text).2.held other =
      if nameOf key = nameOf other then some text else o.held other

/-- A store that has one text for each name answers by name, as long as nothing fails. -/
theorem ByName.answers_eq {nameOf : String → String} {kind : Outside → Prop}
    (hby : ByName nameOf kind) {o : Outside} (hkind : kind o) {before calls : List StoreCall}
    (hheld : ∀ key, o.held key = lastPut nameOf (nameOf key) before)
    (hok : ∀ answer ∈ o.answers calls, answer.isOk = true) :
    o.answers calls = answersByName nameOf before calls := by
  induction calls generalizing o before with
  | nil => rfl
  | cons call calls ih =>
    have hfirst : (o.serve call).1.isOk = true := hok _ List.mem_cons_self
    have hrest : ∀ answer ∈ (o.serve call).2.answers calls, answer.isOk = true :=
      fun answer hanswer => hok answer (List.mem_cons_of_mem _ hanswer)
    cases call with
    | get key =>
      have hhead : o.stored key = .ok (lastPut nameOf (nameOf key) before) := by
        cases hstored : o.stored key with
        | error e => exact absurd hfirst (by simp [serve, hstored, Except.isOk, Except.toBool])
        | ok content => rw [eq_held_of_stored hstored, hheld key]
      have htail : o.answers calls = answersByName nameOf (before ++ [.get key]) calls :=
        ih hkind (fun other => by rw [lastPut_append_get, hheld other]) hrest
      rw [answers, answersByName, ← htail, ← hhead, serve]
    | set key text =>
      have hkeep : (o.keep key text).1 = .ok () := by
        cases hkept : (o.keep key text).1 with
        | ok => rfl
        | error e =>
          exact absurd hfirst (by simp [serve, hkept, Except.map, Except.isOk, Except.toBool])
      have htail : (o.keep key text).2.answers calls =
          answersByName nameOf (before ++ [.set key text]) calls :=
        ih (hby.stays hkind hkeep) (fun other => by
          rw [hby.held_keep hkind hkeep other, lastPut_append_set, hheld other]) hrest
      rw [answers, answersByName, ← htail, serve, hkeep]
      rfl

/-! ### The store in memory -/

/-- The store is in memory, and nothing is refused. -/
def InMemory (o : Outside) : Prop :=
  ∃ entries, o.store = .memory entries false false

/-- Memory takes every text and stays memory. -/
theorem InMemory.keep {o : Outside} (h : o.InMemory) (key text : String) :
    (o.keep key text).1 = .ok () ∧ (o.keep key text).2.InMemory := by
  obtain ⟨entries, hstore⟩ := h
  unfold Outside.keep
  simp only [hstore]
  exact ⟨rfl, _, rfl⟩

/-- In memory every key is its own name. -/
theorem byName_inMemory : ByName id InMemory where
  stays hkind _ := (hkind.keep _ _).2
  held_keep := by
    rintro o key text ⟨entries, hstore⟩ - other
    have hkept : (o.keep key text).2.store =
        .memory (NameMap.insert key text entries) false false := by
      simp [Outside.keep, hstore]
    unfold held
    simp only [hkept, hstore]
    exact NameMap.find?_insert key other text entries

/-- Memory never fails, by induction on the calls. -/
theorem InMemory.ok_of_mem_answers {o : Outside} (h : o.InMemory) {calls : List StoreCall} :
    ∀ answer ∈ o.answers calls, answer.isOk = true := by
  induction calls generalizing o with
  | nil => simp [answers]
  | cons call calls ih =>
    intro answer hanswer
    cases call with
    | get key =>
      rcases List.mem_cons.1 hanswer with rfl | hlater
      · obtain ⟨entries, hstore⟩ := h
        simp [serve, stored, hstore, Except.isOk, Except.toBool]
      · exact ih h answer hlater
    | set key text =>
      obtain ⟨hkeep, hafter⟩ := h.keep key text
      rcases List.mem_cons.1 hanswer with rfl | hlater
      · rw [serve, hkeep]
        rfl
      · exact ih hafter answer hlater

/-- Memory answers with what was put last under the key. -/
theorem memory_answers (calls : List StoreCall) :
    ({} : Outside).answers calls = answersByName id [] calls := by
  have hmemory : ({} : Outside).InMemory := ⟨[], rfl⟩
  exact byName_inMemory.answers_eq hmemory (fun _ => rfl) hmemory.ok_of_mem_answers

end Outside

/-! ### A directory -/

namespace Disk

/-- The directory at a path holds no file, once it has been made if it is missing. -/
def Fresh (disk : Disk) (dir : String) : Prop :=
  ∀ above entries, (disk.makeDirectories dir).2.LeadsInto dir above entries →
    ∀ name body, NameMap.find? name entries ≠ some (.file body)

/-- Making the directory at a path brings no file into reach. -/
def Steady (disk : Disk) (dir : String) : Prop :=
  ∀ name text, IsName name → '/' ∉ name.toList →
    (disk.makeDirectories dir).2.read (inside dir name) = .ok text →
      disk.read (inside dir name) = .ok text

/-- A directory that is empty once it has been made is fresh. -/
theorem fresh_of_leadsInto {disk : Disk} {dir : String} {above : List String}
    (h : (disk.makeDirectories dir).2.LeadsInto dir above []) : disk.Fresh dir := by
  intro other entries hother name body
  obtain ⟨-, rfl⟩ := h.unique hother
  rw [NameMap.find?_nil]
  simp

/-- The directory of a file that can be read has been made. -/
theorem makeDirectories_of_read {disk : Disk} {dir name text : String} (hname : IsName name)
    (hslash : '/' ∉ name.toList) (h : disk.read (inside dir name) = .ok text) :
    disk.makeDirectories dir = (.ok (), disk) := by
  obtain ⟨hcheck, above, entries, hinto, -⟩ := (read_inside_eq_ok_iff _ _ _ hname hslash).1 h
  exact makeDirectories_of_leadsInto (fun hdir => checkPath_of_inside hdir hcheck) hinto

/-- No file is read in a fresh directory, made or not. -/
theorem Fresh.read_ne {disk : Disk} {dir name : String} (h : disk.Fresh dir) (hname : IsName name)
    (hslash : '/' ∉ name.toList) (text : String) :
    (disk.makeDirectories dir).2.read (inside dir name) ≠ .ok text ∧
      disk.read (inside dir name) ≠ .ok text := by
  have hmade : (disk.makeDirectories dir).2.read (inside dir name) ≠ .ok text := by
    intro hread
    obtain ⟨-, above, entries, hinto, -, hfind⟩ :=
      (read_inside_eq_ok_iff _ _ _ hname hslash).1 hread
    exact h above entries hinto name text hfind
  refine ⟨hmade, fun hread => hmade ?_⟩
  rw [makeDirectories_of_read hname hslash hread]
  exact hread

/-- A directory that has not been made is steady. -/
theorem Fresh.steady {disk : Disk} {dir : String} (h : disk.Fresh dir) : disk.Steady dir :=
  fun _ text hname hslash hread => absurd hread (h.read_ne hname hslash text).1

/-- So is one in which a file could be written. -/
theorem steady_of_write {disk after : Disk} {dir name body : String}
    (h : disk.write dir name body = .ok after) : after.Steady dir := by
  obtain ⟨hcheck, -⟩ := (write_eq_ok_iff _ _ _ _ _).1 h
  obtain ⟨above, entries, -, hinto⟩ := leadsInto_of_write h
  have hmake := makeDirectories_of_leadsInto (fun hdir => checkPath_of_inside hdir hcheck) hinto
  intro other text _ _ hread
  rw [hmake] at hread
  exact hread

/-- What is read in a directory after a file has been put there. -/
theorem Steady.read_inside_of_putFile_iff {disk after : Disk} {dir name body : String}
    (hsteady : disk.Steady dir) (h : disk.putFile dir name body = (.ok (), after))
    {other : String} (hother : IsName other) (hslash : '/' ∉ other.toList) (text : String) :
    after.read (inside dir other) = .ok text ↔
      if name = other then body = text else disk.read (inside dir other) = .ok text := by
  obtain ⟨made, hmake, hwrite⟩ := (putFile_eq_ok_iff _ _ _ _ _).1 h
  have hmade : made.read (inside dir other) = .ok text ↔
      disk.read (inside dir other) = .ok text := by
    constructor
    · intro hread
      exact hsteady other text hother hslash (by rw [hmake]; exact hread)
    · intro hread
      have hsame := (makeDirectories_of_read hother hslash hread).symm.trans hmake
      rw [← (Prod.mk.inj hsame).2]
      exact hread
  rw [read_inside_of_write_iff hwrite hother hslash, hmade]

end Disk

namespace Outside

open StoreCall

/-- The store is a directory, which brings no file into reach when it is made. -/
def InDirectory (dir : String) (o : Outside) : Prop :=
  o.store = .directory dir ∧ o.disk.Steady dir

/-- What a directory holds under a key is the file of its name. -/
theorem held_eq_some_iff {o : Outside} {dir : String} (h : o.store = .directory dir)
    (key text : String) :
    o.held key = some text ↔
      o.disk.read (Disk.inside dir (Store.fileName key)) = .ok text := by
  unfold held
  simp only [h]
  cases o.disk.read (Disk.inside dir (Store.fileName key)) <;> simp [Except.toOption]

/-- In a directory the name of a key is that of its file. -/
theorem byName_inDirectory (dir : String) : ByName Store.fileName (InDirectory dir) := by
  have hput : ∀ {o : Outside} {key text : String}, InDirectory dir o →
      (o.keep key text).1 = .ok () → ∃ after,
        o.disk.putFile dir (Store.fileName key) text = (.ok (), after) ∧
          (o.keep key text).2.store = .directory dir ∧ (o.keep key text).2.disk = after := by
    rintro o key text ⟨hstore, -⟩ hkeep
    rw [keep_directory hstore] at hkeep ⊢
    cases hresult : o.disk.putFile dir (Store.fileName key) text with
    | mk result after =>
      rw [hresult] at hkeep
      cases result with
      | ok => exact ⟨after, rfl, hstore, rfl⟩
      | error e => exact absurd hkeep (by simp [Except.mapError])
  constructor
  · intro o key text hkind hkeep
    obtain ⟨after, hafter, hstore, hdisk⟩ := hput hkind hkeep
    obtain ⟨made, -, hwrite⟩ := (Disk.putFile_eq_ok_iff _ _ _ _ _).1 hafter
    exact ⟨hstore, hdisk ▸ Disk.steady_of_write hwrite⟩
  · intro o key text hkind hkeep other
    obtain ⟨after, hafter, hstore, hdisk⟩ := hput hkind hkeep
    apply Option.ext
    intro found
    rw [held_eq_some_iff hstore, hdisk, hkind.2.read_inside_of_putFile_iff hafter
      (isName_fileName other) (slash_not_mem_fileName other)]
    by_cases hname : Store.fileName key = Store.fileName other
    · rw [if_pos hname, if_pos hname, Option.some.injEq]
    · rw [if_neg hname, if_neg hname, held_eq_some_iff hkind.1]

/-- A directory that was fresh answers what the store in memory answers to the calls about the names
of the files, as long as no call fails.  So it answers what the store in memory answers to the calls
themselves just if, whenever a key is asked for, what was put last under any key with the same name
of a file is what was put last under the key. -/
theorem directory_answers {o : Outside} {dir : String} (hstore : o.store = .directory dir)
    (hfresh : o.disk.Fresh dir) {calls : List StoreCall}
    (hok : ∀ answer ∈ o.answers calls, answer.isOk = true) :
    o.answers calls = ({} : Outside).answers (calls.map (rename Store.fileName)) ∧
      (o.answers calls = ({} : Outside).answers calls ↔
        ∀ before key after, calls = before ++ .get key :: after →
          lastPut Store.fileName (Store.fileName key) before = lastPut id key before) := by
  have hempty : ∀ key, o.held key = none := by
    intro key
    cases hheld : o.held key with
    | none => rfl
    | some text =>
      have hread := (held_eq_some_iff hstore key text).1 hheld
      exact absurd hread
        (hfresh.read_ne (isName_fileName key) (slash_not_mem_fileName key) text).2
  have hanswers : o.answers calls = answersByName Store.fileName [] calls :=
    (byName_inDirectory dir).answers_eq ⟨hstore, hfresh.steady⟩ hempty hok
  rw [hanswers, memory_answers, memory_answers]
  exact ⟨(answersByName_map_rename _ [] calls).symm, answersByName_eq_iff _ _ [] calls⟩

/-- A machine with nothing on its disk, whose store is a directory. -/
def inState : Outside :=
  { store := .directory "state" }

/-- On an empty disk the directory has not been made. -/
theorem fresh_inState : inState.disk.Fresh "state" := by
  have hinto : (inState.disk.makeDirectories "state").2.LeadsInto "state" ["state", startName] [] :=
    ⟨rfl, rfl⟩
  exact Disk.fresh_of_leadsInto hinto

/-- Two keys, the names of whose files differ. -/
def twoFiles : List StoreCall :=
  [.get "files", .set "files" "1", .set "a/b" "2", .get "files", .get "a/b"]

/-- Two keys that have files of their own. -/
theorem directory_answers_twoFiles :
    inState.store = .directory "state" ∧ inState.disk.Fresh "state" ∧
      (∀ answer ∈ inState.answers twoFiles, answer.isOk = true) ∧
      inState.answers twoFiles =
        ({} : Outside).answers (twoFiles.map (rename Store.fileName)) ∧
      (inState.answers twoFiles = ({} : Outside).answers twoFiles ↔
        ∀ before key after, twoFiles = before ++ .get key :: after →
          lastPut Store.fileName (Store.fileName key) before = lastPut id key before) := by
  have hok : ∀ answer ∈ inState.answers twoFiles, answer.isOk = true := by decide +kernel
  exact ⟨rfl, fresh_inState, hok, directory_answers rfl fresh_inState hok⟩

/-- Two keys whose files have one name. -/
def oneFile : List StoreCall :=
  [.set "a/b" "1", .set "a_b" "2", .get "a/b"]

/-- The text of the second key has replaced that of the first. -/
theorem directory_answers_oneFile :
    inState.store = .directory "state" ∧ inState.disk.Fresh "state" ∧
      (∀ answer ∈ inState.answers oneFile, answer.isOk = true) ∧
      inState.answers oneFile ≠ ({} : Outside).answers oneFile := by
  refine ⟨rfl, fresh_inState, by decide +kernel, fun h => ?_⟩
  have hlast := congrArg (List.map Except.toOption) h
  exact absurd hlast (by decide +kernel)

end Outside

end MountShell
