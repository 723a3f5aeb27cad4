import Mathlib.Data.List.Basic
import Mathlib.Logic.Function.Basic
import MountShell.Proofs.Tree.Handle
import MountShell.Volume.Basic

/-!
# One log for all handles on a node

Any number of handles on one node of a tree are read, written and closed in any order, while the
flag of the node is set and cleared.  What is accepted makes one log of the node, whose entries
replace the text or add to it, and every entry is followed by one run of the hook of its handle.

Main statement: `NodeUse.follows_run`, by which the tree, the runs of the hooks and the next answers
can be told from the operations so far.
-/

namespace MountShell

variable {ι σ : Type}

/-! ### Handles with hooks -/

namespace FileHandle

/-- Reads through a handle. -/
def read (h : FileHandle) (root : Node) (o : Outside) : Except FsError String × Outside :=
  match h.content root with
  | .error e => (.error e, o)
  | .ok content => content.read h.path o

/-- Writes through a handle. The hook is run on the changed tree. -/
def writeThrough (hook : Node → σ → σ) (h : FileHandle) (root : Node) (data : String) (world : σ) :
    Except FsError Unit × Node × σ :=
  match h.write root data with
  | .error e => (.error e, root, world)
  | .ok after => (.ok (), after, hook after world)

/-- Closes a handle. The hook is run on the changed tree, if the tree changes. -/
def closeThrough (hook : Node → σ → σ) (h : FileHandle) (root : Node) (world : σ) :
    Except FsError Unit × FileHandle × Node × σ :=
  match h.close root with
  | .error e => (.error e, h, root, world)
  | .ok (closed, none) => (.ok (), closed, root, world)
  | .ok (closed, some after) => (.ok (), closed, after, hook after world)

end FileHandle

namespace Volume

/-- The hook of the handles on a volume: the changed tree is kept. -/
def hook (v : Volume) (root : Node) (o : Outside) : Outside :=
  (v.change root o).2

/-- A read on a volume whose tree is there is one on the tree, and leaves all as it is. -/
theorem read_eq_read {v : Volume} {root : Node} (hroot : v.root = some root) (h : FileHandle)
    (o : Outside) : v.read h o = h.read root o := by
  rw [read, hroot, Option.getD_some]
  rfl

/-- A write on a volume is one with the hook of the volume. -/
theorem write_eq_writeThrough {v : Volume} {root : Node} (hroot : v.root = some root)
    (h : FileHandle) (data : String) (o : Outside) :
    v.write h data o =
      ((h.writeThrough v.hook root data o).1,
        { v with root := some (h.writeThrough v.hook root data o).2.1 },
        (h.writeThrough v.hook root data o).2.2) := by
  obtain ⟨backing, tree⟩ := v
  subst hroot
  unfold write FileHandle.writeThrough
  rw [Option.getD_some]
  cases h.write root data <;> rfl

/-- A close on a volume is one with the hook of the volume. -/
theorem close_eq_closeThrough {v : Volume} {root : Node} (hroot : v.root = some root)
    (h : FileHandle) (o : Outside) :
    v.close h o =
      ((h.closeThrough v.hook root o).1.map fun _ => (h.closeThrough v.hook root o).2.1,
        { v with root := some (h.closeThrough v.hook root o).2.2.1 },
        (h.closeThrough v.hook root o).2.2.2) := by
  obtain ⟨backing, tree⟩ := v
  subst hroot
  unfold close FileHandle.closeThrough
  rw [Option.getD_some]
  cases hclose : h.close root with
  | error e => rfl
  | ok closed =>
    obtain ⟨handle, after⟩ := closed
    cases after <;> rfl

end Volume

/-! ### Operations on a node and their log -/

/-- An operation through one of the handles on a node, or on its flag. -/
inductive NodeOp (ι : Type) where
  | read (i : ι)
  | write (i : ι) (data : String)
  | close (i : ι)
  | setFlag (w : Bool)
  deriving DecidableEq

/-- An entry in the log of a node: data that came through a handle. -/
structure LogEntry (ι : Type) where
  handle : ι
  /-- Do the data replace the text before, or are they added to it? -/
  replaces : Bool
  data : String

namespace LogEntry

/-- The text after an entry. -/
def apply (body : String) (entry : LogEntry ι) : String :=
  if entry.replaces then entry.data else body ++ entry.data

/-- The text after a log. -/
def text (body : String) (log : List (LogEntry ι)) : String :=
  log.foldl apply body

/-- The handles of a log, each with the text after its entry. -/
def texts (body : String) : List (LogEntry ι) → List (ι × String)
  | [] => []
  | entry :: log => (entry.handle, entry.apply body) :: texts (entry.apply body) log

/-- One more entry acts on the text after the others. -/
theorem text_append (body : String) (log : List (LogEntry ι)) (entry : LogEntry ι) :
    text body (log ++ [entry]) = entry.apply (text body log) := by
  rw [text, List.foldl_append, List.foldl_cons, List.foldl_nil, text]

/-- One more entry gives one more text, with the handle that it is from. -/
theorem texts_append (body : String) (log : List (LogEntry ι)) (entry : LogEntry ι) :
    texts body (log ++ [entry]) =
      texts body log ++ [(entry.handle, entry.apply (text body log))] := by
  induction log generalizing body with
  | nil => rfl
  | cons first log ih =>
    rw [List.cons_append, texts, ih, texts, List.cons_append, text, text, List.foldl_cons]

end LogEntry

namespace Node

/-- The text of a file of text. -/
def text? : Node → Option String
  | file _ (.text body) => some body
  | _ => none

/-- The node with another flag, and after a log if it is a file of text. -/
def afterLog (w : Bool) (log : List (LogEntry ι)) : Node → Node
  | file _ (.text body) => file w (.text (LogEntry.text body log))
  | node => node.setWriteable w

/-- An empty log leaves a node with its own flag as it is. -/
theorem afterLog_nil (node : Node) :
    node.afterLog node.writeable ([] : List (LogEntry ι)) = node := by
  match node with
  | directory w children => rfl
  | file w (.text body) => rfl
  | file w (.program name) => rfl
  | file w (.remote location) => rfl

/-- Which flag is set does not matter to the text. -/
theorem setWriteable_afterLog (w w' : Bool) (log : List (LogEntry ι)) (node : Node) :
    (node.afterLog w log).setWriteable w' = node.afterLog w' log := by
  match node with
  | directory w children => rfl
  | file w (.text body) => rfl
  | file w (.program name) => rfl
  | file w (.remote location) => rfl

/-- The node is a text with the flag set if it was a text and the flag is set now. -/
theorem afterLog_eq_text_iff {node : Node} {w : Bool} {log : List (LogEntry ι)} {w' : Bool}
    {body : String} :
    node.afterLog w log = file w' (.text body) ↔
      w = w' ∧ ∃ old, node.text? = some old ∧ LogEntry.text old log = body := by
  match node with
  | directory w children => simp [afterLog, setWriteable, text?]
  | file w (.text old) => simp [afterLog, text?]
  | file w (.program name) => simp [afterLog, setWriteable, text?]
  | file w (.remote location) => simp [afterLog, setWriteable, text?]

end Node

namespace NodeOp

/-- The flag of a node after operations. -/
def flagAfter (w : Bool) (ops : List (NodeOp ι)) : Bool :=
  ops.foldl (fun w op => match op with | setFlag new => new | _ => w) w

/-- The flag is that of the last operation that sets one. -/
theorem flagAfter_append (w : Bool) (ops : List (NodeOp ι)) (op : NodeOp ι) :
    flagAfter w (ops ++ [op]) = match op with | setFlag new => new | _ => flagAfter w ops := by
  rw [flagAfter, List.foldl_append, List.foldl_cons, List.foldl_nil]
  cases op <;> rfl

section

variable (handles : ι → FileHandle)

/-- The handle was not closed at first and has not been closed since. -/
def Unclosed (ops : List (NodeOp ι)) (i : ι) : Prop :=
  (handles i).closed = false ∧ close i ∉ ops

variable {handles} in
/-- A handle is unclosed as long as it is not closed now. -/
theorem unclosed_append_iff {ops : List (NodeOp ι)} {op : NodeOp ι} {i : ι} :
    Unclosed handles (ops ++ [op]) i ↔ Unclosed handles ops i ∧ op ≠ close i := by
  simp only [Unclosed, List.mem_append, List.mem_singleton, not_or, and_assoc, ne_comm, ne_eq]

end

variable [DecidableEq ι] (handles : ι → FileHandle) (node : Node)

/-- What is written through the handle after the operations gets into the file: the handle is
unclosed and for writing, the node is a file of text, and its flag is set. -/
def Writes (ops : List (NodeOp ι)) (i : ι) : Prop :=
  Unclosed handles ops i ∧ (handles i).mode.isWrite = true ∧ node.text?.isSome = true ∧
    flagAfter node.writeable ops = true

instance (ops : List (NodeOp ι)) (i : ι) : Decidable (Unclosed handles ops i) :=
  inferInstanceAs (Decidable (_ ∧ _))

instance (ops : List (NodeOp ι)) (i : ι) : Decidable (Writes handles node ops i) :=
  inferInstanceAs (Decidable (_ ∧ _))

/-- The entry that an operation adds to the log after others. Closing adds a newline. -/
def logged? (before : List (NodeOp ι)) : NodeOp ι → Option (LogEntry ι)
  | write i data =>
    if Writes handles node before i then some ⟨i, (handles i).mode = .overwrite, data⟩ else none
  | close i => if Writes handles node before i then some ⟨i, false, "\n"⟩ else none
  | read _ | setFlag _ => none

variable {handles node}

/-- Only what is written through a handle is entered, and the flag stays. -/
theorem writes_of_logged? {before : List (NodeOp ι)} {op : NodeOp ι} {entry : LogEntry ι}
    (h : logged? handles node before op = some entry) :
    Writes handles node before entry.handle ∧
      flagAfter node.writeable (before ++ [op]) = flagAfter node.writeable before := by
  rw [flagAfter_append]
  cases op with
  | read i => nomatch h
  | setFlag w => nomatch h
  | write i data =>
    by_cases hwrites : Writes handles node before i
    · rw [logged?, if_pos hwrites] at h
      obtain rfl := Option.some.inj h
      exact ⟨hwrites, rfl⟩
    · exact absurd h (by simp [logged?, hwrites])
  | close i =>
    by_cases hwrites : Writes handles node before i
    · rw [logged?, if_pos hwrites] at h
      obtain rfl := Option.some.inj h
      exact ⟨hwrites, rfl⟩
    · exact absurd h (by simp [logged?, hwrites])

variable (handles node)

/-- The log that operations make after others. -/
def log : List (NodeOp ι) → List (NodeOp ι) → List (LogEntry ι)
  | _, [] => []
  | before, op :: ops => (logged? handles node before op).toList ++ log (before ++ [op]) ops

/-- The text of a node after operations, if it is a file of text. -/
def textAfter (ops : List (NodeOp ι)) : String :=
  LogEntry.text (node.text?.getD "") (log handles node [] ops)

/-- One more operation adds the entry that it leaves, if it is accepted. -/
theorem log_append (before ops : List (NodeOp ι)) (op : NodeOp ι) :
    log handles node before (ops ++ [op]) =
      log handles node before ops ++ (logged? handles node (before ++ ops) op).toList := by
  induction ops generalizing before with
  | nil => simp [log]
  | cons first ops ih => simp [log, ih]

end NodeOp

/-! ### Runs -/

/-- A node in a tree is used through handles, the hooks of which change the world. -/
structure NodeUse (ι σ : Type) where
  root : Node
  handles : ι → FileHandle
  world : σ

namespace NodeUse

variable (hooks : ι → Node → σ → σ) (spot : List String)

/-- The tree with a text at the node, which is writeable. -/
def withText (s : NodeUse ι σ) (text : String) : Node :=
  s.root.update (fun _ => .file true (.text text)) spot

/-- What hooks make of the world when they run one after the other, each with the text of its entry
in place. -/
def runHooks (s : NodeUse ι σ) (texts : List (ι × String)) : σ :=
  texts.foldl (fun world run => hooks run.1 (s.withText spot run.2) world) s.world

/-- One more hook runs on the tree with its text in place. -/
theorem runHooks_append (s : NodeUse ι σ) (texts : List (ι × String)) (i : ι) (text : String) :
    s.runHooks hooks spot (texts ++ [(i, text)]) =
      hooks i (s.withText spot text) (s.runHooks hooks spot texts) := by
  rw [runHooks, List.foldl_append, List.foldl_cons, List.foldl_nil, runHooks]

variable [DecidableEq ι]

/-- Writes through one of the handles. -/
def write (s : NodeUse ι σ) (i : ι) (data : String) : Except FsError Unit × NodeUse ι σ :=
  match (s.handles i).writeThrough (hooks i) s.root data s.world with
  | (answer, root, world) => (answer, { s with root, world })

/-- Closes one of the handles. -/
def close (s : NodeUse ι σ) (i : ι) : Except FsError Unit × NodeUse ι σ :=
  match (s.handles i).closeThrough (hooks i) s.root s.world with
  | (answer, h, root, world) =>
    (answer, { root := root, handles := Function.update s.handles i h, world := world })

/-- One operation. -/
def step (s : NodeUse ι σ) : NodeOp ι → NodeUse ι σ
  | .read _ => s
  | .write i data => (s.write hooks i data).2
  | .close i => (s.close hooks i).2
  | .setFlag w => { s with root := s.root.update (Node.setWriteable w) spot }

/-- Operations one after the other. -/
def run (s : NodeUse ι σ) (ops : List (NodeOp ι)) : NodeUse ι σ :=
  ops.foldl (step hooks spot) s

/-- What is the case after operations on a node of the tree of `s`. -/
structure Follows (s : NodeUse ι σ) (node : Node) (ops : List (NodeOp ι)) (after : NodeUse ι σ) :
    Prop where
  /-- The node shows the log, and nothing else in the tree has changed. -/
  root : after.root = s.root.update (fun _ =>
    node.afterLog (NodeOp.flagAfter node.writeable ops) (NodeOp.log s.handles node [] ops)) spot
  /-- The hooks ran once for each entry, with its text in place. -/
  world : after.world = s.runHooks hooks spot
    (LogEntry.texts (node.text?.getD "") (NodeOp.log s.handles node [] ops))
  /-- The handles stay bound, and those that were closed are closed. -/
  handles : ∀ i, (after.handles i).binding = .ok spot ∧
    (after.handles i).mode = (s.handles i).mode ∧
    ((after.handles i).closed = false ↔ NodeOp.Unclosed s.handles ops i)

/-- What can be told from the operations on a node so far. -/
structure Tells (s : NodeUse ι σ) (node : Node) (ops : List (NodeOp ι)) (after : NodeUse ι σ) : Prop
    extends Follows hooks spot s node ops after where
  /-- A write is accepted if its handle is unclosed and for writing, the node is a file of text, and
  its flag is set. -/
  write_iff : ∀ i data,
    (after.write hooks i data).1 = .ok () ↔ NodeOp.Writes s.handles node ops i
  /-- A close is accepted if its handle is unclosed. -/
  close_iff : ∀ i, (after.close hooks i).1 = .ok () ↔ NodeOp.Unclosed s.handles ops i
  /-- Reading through an unclosed handle on a file of text gives the text of the log. -/
  read_eq : ∀ i o, NodeOp.Unclosed s.handles ops i → node.text?.isSome = true →
    (after.handles i).read after.root o = (.ok (NodeOp.textAfter s.handles node ops), o)

variable {hooks spot} {s after : NodeUse ι σ} {node : Node} {ops : List (NodeOp ι)}

/-- The node is still there, with what the log has made of it. -/
theorem Follows.at?_spot (hat : s.root.at? spot = some node)
    (h : s.Follows hooks spot node ops after) :
    after.root.at? spot = some (node.afterLog (NodeOp.flagAfter node.writeable ops)
      (NodeOp.log s.handles node [] ops)) := by
  rw [h.root, Node.at?_update _ hat]

/-- A text at the node is the one that the operations tell. -/
theorem Follows.text_eq (hat : s.root.at? spot = some node)
    (h : s.Follows hooks spot node ops after) {w : Bool} {body : String}
    (hbody : after.root.at? spot = some (.file w (.text body))) :
    body = NodeOp.textAfter s.handles node ops := by
  rw [h.at?_spot hat, Option.some.injEq, Node.afterLog_eq_text_iff] at hbody
  obtain ⟨-, old, hold, rfl⟩ := hbody
  rw [NodeOp.textAfter, hold, Option.getD_some]

/-- What is written gets into the file just when the handle and the node allow it at that moment. -/
theorem Follows.writes_iff (hat : s.root.at? spot = some node)
    (h : s.Follows hooks spot node ops after) (i : ι) :
    NodeOp.Writes s.handles node ops i ↔
      (after.handles i).closed = false ∧ (after.handles i).mode.isWrite = true ∧
        ∃ body, after.root.at? spot = some (.file true (.text body)) := by
  obtain ⟨-, hmode, hclosed⟩ := h.handles i
  simp only [NodeOp.Writes, hclosed, hmode, h.at?_spot hat, Option.some.injEq,
    Node.afterLog_eq_text_iff]
  cases node.text? <;> simp

/-- An operation that enters something into the log. -/
theorem Follows.enter (h : s.Follows hooks spot node ops after) {op : NodeOp ι}
    {entry : LogEntry ι} {last : NodeUse ι σ}
    (hentry : NodeOp.logged? s.handles node ops op = some entry)
    (hroot : last.root = after.withText spot (entry.apply (NodeOp.textAfter s.handles node ops)))
    (hworld : last.world = hooks entry.handle last.root after.world)
    (hhandles : ∀ i, (last.handles i).binding = .ok spot ∧
      (last.handles i).mode = (s.handles i).mode ∧
      ((last.handles i).closed = false ↔ NodeOp.Unclosed s.handles (ops ++ [op]) i)) :
    s.Follows hooks spot node (ops ++ [op]) last := by
  obtain ⟨⟨-, -, htext, hflag⟩, hstays⟩ := NodeOp.writes_of_logged? hentry
  have hlog : NodeOp.log s.handles node [] (ops ++ [op]) =
      NodeOp.log s.handles node [] ops ++ [entry] := by
    rw [NodeOp.log_append, List.nil_append, hentry, Option.toList_some]
  have hplace : last.root =
      s.withText spot (entry.apply (NodeOp.textAfter s.handles node ops)) := by
    rw [hroot, withText, h.root, Node.update_update]
    rfl
  refine ⟨?_, ?_, hhandles⟩
  · have hnode : node.afterLog true (NodeOp.log s.handles node [] ops ++ [entry]) =
        .file true (.text (entry.apply (NodeOp.textAfter s.handles node ops))) := by
      obtain ⟨old, hold⟩ := Option.isSome_iff_exists.1 htext
      refine Node.afterLog_eq_text_iff.2 ⟨rfl, old, hold, ?_⟩
      rw [LogEntry.text_append, NodeOp.textAfter, hold, Option.getD_some]
    rw [hlog, hstays, hflag, hnode, hplace, withText]
  · rw [hlog, LogEntry.texts_append, runHooks_append, ← h.world, hworld, hplace,
      NodeOp.textAfter]

/-- An operation that changes neither the tree nor the world, and enters nothing. -/
theorem Follows.pass (h : s.Follows hooks spot node ops after) {op : NodeOp ι}
    {last : NodeUse ι σ} (hentry : NodeOp.logged? s.handles node ops op = none)
    (hflag : NodeOp.flagAfter node.writeable (ops ++ [op]) =
      NodeOp.flagAfter node.writeable ops)
    (hroot : last.root = after.root) (hworld : last.world = after.world)
    (hhandles : ∀ i, (last.handles i).binding = .ok spot ∧
      (last.handles i).mode = (s.handles i).mode ∧
      ((last.handles i).closed = false ↔ NodeOp.Unclosed s.handles (ops ++ [op]) i)) :
    s.Follows hooks spot node (ops ++ [op]) last := by
  have hlog : NodeOp.log s.handles node [] (ops ++ [op]) = NodeOp.log s.handles node [] ops := by
    rw [NodeOp.log_append, List.nil_append, hentry, Option.toList_none, List.append_nil]
  refine ⟨?_, ?_, hhandles⟩
  · rw [hlog, hflag, hroot, h.root]
  · rw [hlog, hworld, h.world]

/-- An operation other than a close leaves the handles bound, and unclosed as they were. -/
theorem Follows.handles_append (h : s.Follows hooks spot node ops after) (op : NodeOp ι)
    (hop : ∀ i, op ≠ .close i) (i : ι) :
    (after.handles i).binding = .ok spot ∧ (after.handles i).mode = (s.handles i).mode ∧
      ((after.handles i).closed = false ↔ NodeOp.Unclosed s.handles (ops ++ [op]) i) := by
  obtain ⟨hbinding, hmode, hclosed⟩ := h.handles i
  refine ⟨hbinding, hmode, ?_⟩
  rw [NodeOp.unclosed_append_iff, hclosed]
  exact ⟨fun hopen => ⟨hopen, hop i⟩, And.left⟩

/-- What a write does is one entry in the log, if the file can be written through the handle. -/
theorem Follows.write_eq (hat : s.root.at? spot = some node)
    (h : s.Follows hooks spot node ops after) (i : ι) (data : String) :
    if NodeOp.Writes s.handles node ops i then
      (after.handles i).write after.root data = .ok (after.withText spot
        (LogEntry.apply (NodeOp.textAfter s.handles node ops)
          ⟨i, (s.handles i).mode = .overwrite, data⟩))
    else ∃ e, (after.handles i).write after.root data = .error e := by
  obtain ⟨hbinding, hmode, -⟩ := h.handles i
  by_cases hwrites : NodeOp.Writes s.handles node ops i
  · rw [if_pos hwrites, ← hmode]
    obtain ⟨hclosed, hwrite, body, hbody⟩ := (h.writes_iff hat i).1 hwrites
    refine (FileHandle.write_eq_ok_iff _ _ _ _).2
      ⟨spot, body, hbinding, hclosed, hwrite, hbody, ?_⟩
    rw [h.text_eq hat hbody, withText, LogEntry.apply]
    cases (after.handles i).mode <;> rfl
  · rw [if_neg hwrites]
    cases hresult : (after.handles i).write after.root data with
    | error e => exact ⟨e, rfl⟩
    | ok changed =>
      obtain ⟨segments, body, hsegments, hclosed, hwrite, hbody, -⟩ :=
        (FileHandle.write_eq_ok_iff _ _ _ _).1 hresult
      obtain rfl : spot = segments := Except.ok.inj (hbinding.symm.trans hsegments)
      exact absurd ((h.writes_iff hat i).2 ⟨hclosed, hwrite, body, hbody⟩) hwrites

/-- What a close does is one entry in the log, if the file can be written through the handle. -/
theorem Follows.ending?_eq (hat : s.root.at? spot = some node)
    (h : s.Follows hooks spot node ops after) (i : ι)
    (hclosed : (after.handles i).closed = false) :
    (after.handles i).ending? after.root =
      if NodeOp.Writes s.handles node ops i then
        some (after.withText spot
          (LogEntry.apply (NodeOp.textAfter s.handles node ops) ⟨i, false, "\n"⟩))
      else none := by
  obtain ⟨hbinding, -, -⟩ := h.handles i
  by_cases hwrites : NodeOp.Writes s.handles node ops i
  · rw [if_pos hwrites]
    obtain ⟨-, hwrite, body, hbody⟩ := (h.writes_iff hat i).1 hwrites
    refine (FileHandle.ending?_eq_some_iff _ _ _).2 ⟨spot, body, hbinding, hwrite, hbody, ?_⟩
    rw [h.text_eq hat hbody]
    rfl
  · rw [if_neg hwrites, Option.eq_none_iff_forall_ne_some]
    intro changed hchanged
    obtain ⟨segments, body, hsegments, hwrite, hbody, -⟩ :=
      (FileHandle.ending?_eq_some_iff _ _ _).1 hchanged
    obtain rfl : spot = segments := Except.ok.inj (hbinding.symm.trans hsegments)
    exact absurd ((h.writes_iff hat i).2 ⟨hclosed, hwrite, body, hbody⟩) hwrites

/-- A write through a handle, and its answer. -/
theorem Follows.write (hat : s.root.at? spot = some node) (h : s.Follows hooks spot node ops after)
    (i : ι) (data : String) :
    s.Follows hooks spot node (ops ++ [.write i data]) (after.write hooks i data).2 ∧
      ((after.write hooks i data).1 = .ok () ↔ NodeOp.Writes s.handles node ops i) := by
  have hresult := h.write_eq hat i data
  have hhandles := h.handles_append (.write i data) (fun _ => by simp)
  unfold NodeUse.write FileHandle.writeThrough
  by_cases hwrites : NodeOp.Writes s.handles node ops i
  · rw [if_pos hwrites] at hresult
    rw [hresult]
    refine ⟨h.enter ?_ rfl rfl hhandles, ⟨fun _ => hwrites, fun _ => rfl⟩⟩
    rw [NodeOp.logged?, if_pos hwrites]
  · rw [if_neg hwrites] at hresult
    obtain ⟨e, hresult⟩ := hresult
    rw [hresult]
    refine ⟨h.pass ?_ ?_ rfl rfl hhandles, by simp [hwrites]⟩
    · rw [NodeOp.logged?, if_neg hwrites]
    · rw [NodeOp.flagAfter_append]

/-- A close of a handle, and its answer. -/
theorem Follows.close (hat : s.root.at? spot = some node) (h : s.Follows hooks spot node ops after)
    (i : ι) :
    s.Follows hooks spot node (ops ++ [.close i]) (after.close hooks i).2 ∧
      ((after.close hooks i).1 = .ok () ↔ NodeOp.Unclosed s.handles ops i) := by
  obtain ⟨hbinding, hmode, hclosed⟩ := h.handles i
  have hflag : NodeOp.flagAfter node.writeable (ops ++ [.close i]) =
      NodeOp.flagAfter node.writeable ops := NodeOp.flagAfter_append _ _ _
  -- the handle is closed afterwards, and the others stay as they are
  have hhandles : ∀ (new : FileHandle), new.binding = .ok spot → new.mode = (s.handles i).mode →
      new.closed = true → ∀ j,
        (Function.update after.handles i new j).binding = .ok spot ∧
          (Function.update after.handles i new j).mode = (s.handles j).mode ∧
          ((Function.update after.handles i new j).closed = false ↔
            NodeOp.Unclosed s.handles (ops ++ [.close i]) j) := by
    intro new hnew hnewMode hnewClosed j
    rw [NodeOp.unclosed_append_iff]
    by_cases hji : j = i
    · subst hji
      rw [Function.update_self]
      exact ⟨hnew, hnewMode, by simp [hnewClosed]⟩
    · rw [Function.update_of_ne hji]
      obtain ⟨hother, hotherMode, hotherClosed⟩ := h.handles j
      refine ⟨hother, hotherMode, ?_⟩
      rw [hotherClosed]
      simp [Ne.symm hji]
  unfold NodeUse.close FileHandle.closeThrough
  rw [FileHandle.close_eq]
  by_cases hopen : (after.handles i).closed = true
  · -- the handle has been closed already
    have hunclosed : ¬ NodeOp.Unclosed s.handles ops i := fun hun => by
      rw [hclosed.2 hun] at hopen
      exact absurd hopen (by decide)
    have hentry : NodeOp.logged? s.handles node ops (.close i) = none := by
      rw [NodeOp.logged?, if_neg fun hwrites => hunclosed hwrites.1]
    rw [if_pos hopen]
    exact ⟨h.pass hentry hflag rfl rfl (hhandles _ hbinding hmode hopen), by simp [hunclosed]⟩
  · have hunclosed := hclosed.1 (Bool.eq_false_iff.2 hopen)
    rw [if_neg hopen, h.ending?_eq hat i (Bool.eq_false_iff.2 hopen)]
    have hnew := hhandles { after.handles i with closed := true } hbinding hmode rfl
    by_cases hwrites : NodeOp.Writes s.handles node ops i
    · rw [if_pos hwrites]
      refine ⟨h.enter ?_ rfl rfl hnew, ⟨fun _ => hunclosed, fun _ => rfl⟩⟩
      rw [NodeOp.logged?, if_pos hwrites]
    · rw [if_neg hwrites]
      refine ⟨h.pass ?_ hflag rfl rfl hnew, ⟨fun _ => hunclosed, fun _ => rfl⟩⟩
      rw [NodeOp.logged?, if_neg hwrites]

/-- Setting the flag changes the flag alone. -/
theorem Follows.setFlag (h : s.Follows hooks spot node ops after) (w : Bool) :
    s.Follows hooks spot node (ops ++ [.setFlag w])
      { after with root := after.root.update (Node.setWriteable w) spot } := by
  have hlog : NodeOp.log s.handles node [] (ops ++ [.setFlag w]) =
      NodeOp.log s.handles node [] ops := by
    rw [NodeOp.log_append, NodeOp.logged?, Option.toList_none, List.append_nil]
  refine ⟨?_, by rw [hlog, h.world], h.handles_append _ (fun _ => by simp)⟩
  have hnode : Node.setWriteable w ∘ (fun _ : Node =>
      node.afterLog (NodeOp.flagAfter node.writeable ops) (NodeOp.log s.handles node [] ops)) =
      fun _ => node.afterLog w (NodeOp.log s.handles node [] ops) :=
    funext fun _ => Node.setWriteable_afterLog _ _ _ _
  rw [hlog, NodeOp.flagAfter_append, h.root, Node.update_update, hnode]

/-- What one operation preserves. -/
theorem Follows.step (hat : s.root.at? spot = some node) (h : s.Follows hooks spot node ops after)
    (op : NodeOp ι) : s.Follows hooks spot node (ops ++ [op]) (after.step hooks spot op) := by
  cases op with
  | read i =>
    refine h.pass rfl ?_ rfl rfl (h.handles_append _ (fun _ => by simp))
    rw [NodeOp.flagAfter_append]
  | write i data => exact (h.write hat i data).1
  | close i => exact (h.close hat i).1
  | setFlag w => exact h.setFlag w

/-- Before any operation there is nothing to follow. -/
theorem Follows.nil (hat : s.root.at? spot = some node)
    (hbound : ∀ i, (s.handles i).binding = .ok spot) : s.Follows hooks spot node [] s where
  root := by
    rw [NodeOp.log, NodeOp.flagAfter, List.foldl_nil, Node.afterLog_nil]
    exact (Node.update_eq_self hat rfl).symm
  world := rfl
  handles i := ⟨hbound i, rfl, by simp [NodeOp.Unclosed]⟩

/-- More operations, by induction on them. -/
theorem follows_foldl (hat : s.root.at? spot = some node)
    (h : s.Follows hooks spot node ops after) (more : List (NodeOp ι)) :
    s.Follows hooks spot node (ops ++ more) (after.run hooks spot more) := by
  induction more generalizing ops after with
  | nil => simpa [run] using h
  | cons op more ih =>
    have hrest := ih (h.step hat op)
    rw [List.append_assoc, List.singleton_append] at hrest
    exact hrest

/-- Whatever is done through any number of handles on a node, its text is the one of the log of what
was accepted, and each hook runs once for each entry of its handle, with the text of the entry in
place. -/
theorem follows_run (hooks : ι → Node → σ → σ) (hat : s.root.at? spot = some node)
    (hbound : ∀ i, (s.handles i).binding = .ok spot) (ops : List (NodeOp ι)) :
    s.Tells hooks spot node ops (s.run hooks spot ops) := by
  have h : s.Follows hooks spot node ([] ++ ops) (s.run hooks spot ops) :=
    follows_foldl hat (Follows.nil hat hbound) ops
  rw [List.nil_append] at h
  refine ⟨h, fun i data => (h.write hat i data).2, fun i => (h.close hat i).2, ?_⟩
  intro i o hunclosed htext
  obtain ⟨hbinding, -, hclosed⟩ := h.handles i
  obtain ⟨old, hold⟩ := Option.isSome_iff_exists.1 htext
  have hbody : (s.run hooks spot ops).root.at? spot =
      some (.file (NodeOp.flagAfter node.writeable ops)
        (.text (NodeOp.textAfter s.handles node ops))) := by
    rw [h.at?_spot hat, Option.some.injEq, Node.afterLog_eq_text_iff]
    exact ⟨rfl, old, hold, by rw [NodeOp.textAfter, hold, Option.getD_some]⟩
  have hcontent : ((s.run hooks spot ops).handles i).content (s.run hooks spot ops).root =
      .ok (.text (NodeOp.textAfter s.handles node ops)) := by
    simp only [FileHandle.content, hbinding, hclosed.2 hunclosed, hbody]
    rfl
  rw [FileHandle.read, hcontent]
  rfl

/-- A file with the text `a`, and one handle for each mode. What the hooks see is kept. -/
def oneOfEach : NodeUse OpenMode (List (OpenMode × Option String)) where
  root := .directory true [("f", .file true (.text "a"))]
  handles mode := .ofNode ["f"] "/f" mode
  world := []

/-- A hook that notes the text of the file. -/
def note (mode : OpenMode) (root : Node) (seen : List (OpenMode × Option String)) :
    List (OpenMode × Option String) :=
  seen ++ [(mode, (root.at? ["f"]).bind Node.text?)]

/-- A write and a close that are accepted, and two writes that are not. -/
def fewOps : List (NodeOp OpenMode) :=
  [.write .append "b", .write .read "c", .close .append, .setFlag false, .write .overwrite "d"]

/-- A handle of each mode on one file, with accepted and refused operations among them. -/
theorem follows_run_oneOfEach :
    oneOfEach.root.at? ["f"] = some (.file true (.text "a")) ∧
      (∀ mode, (oneOfEach.handles mode).binding = .ok ["f"]) ∧
      oneOfEach.Tells note ["f"] (.file true (.text "a")) fewOps
        (oneOfEach.run note ["f"] fewOps) :=
  ⟨rfl, fun _ => rfl, follows_run note rfl (fun _ => rfl) _⟩

/-- The hook of the handle for appending ran twice, and no other. -/
example : (oneOfEach.run note ["f"] fewOps).world =
    [(.append, some "ab"), (.append, some "ab\n")] := by
  decide +kernel

end NodeUse

end MountShell
