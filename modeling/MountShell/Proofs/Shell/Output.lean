import Mathlib.Data.List.Induction
import MountShell.Proofs.FileSystem.Writing
import MountShell.Proofs.Shell.Deeds

/-!
# Redirected output arrives

A command with redirections writes each line to all of its outputs.  The texts among them get the
lines, joined by newlines, and the release ends each with one more newline; an output that takes no
lines is reported once for each line and stays as it is, whatever becomes of the others.

Main statement: `Io.output_run`, for the outputs of every command that writes any lines and is
released then.
-/

namespace MountShell

/-! ### Lines as a file takes them -/

/-- The data that are written for a line after others. -/
def OpenMode.lineData (mode : OpenMode) (before : List String) (line : String) : String :=
  match mode with
  | .overwrite => "\n".intercalate (before ++ [line])
  | _ => if before = [] then line else "\n" ++ line

/-- A text after lines have been written to it: they replace it or are added to it. -/
def OpenMode.withLines (mode : OpenMode) (lines : List String) (old : String) : String :=
  if lines = [] then old
  else (if mode = .overwrite then "" else old) ++ "\n".intercalate lines

/-- One more part at the end of joined ones. -/
theorem intercalate_append_singleton (sep : String) (parts : List String) (last : String) :
    sep.intercalate (parts ++ [last]) =
      if parts = [] then last else sep.intercalate parts ++ sep ++ last := by
  induction parts with
  | nil => simp
  | cons part parts ih =>
    cases parts with
    | nil => simp [String.intercalate_cons_cons]
    | cons next parts =>
      rw [if_neg (by simp)] at ih
      rw [List.cons_append, List.cons_append, String.intercalate_cons_cons, ← List.cons_append, ih,
        if_neg (by simp), String.intercalate_cons_cons]
      simp only [String.append_assoc]

/-- The data for one more line make of a text with lines the text with one line more. -/
theorem OpenMode.writeText_lineData (mode : OpenMode) (before : List String) (old line : String) :
    FileHandle.writeText mode (mode.withLines before old) (mode.lineData before line) =
      mode.withLines (before ++ [line]) old := by
  have hmore : before ++ [line] ≠ [] := by simp
  unfold withLines lineData
  rw [if_neg hmore, intercalate_append_singleton]
  by_cases hbefore : before = []
  · cases mode <;> simp [hbefore, FileHandle.writeText]
  · cases mode <;> simp [hbefore, FileHandle.writeText, String.append_assoc]

/-! ### Outputs -/

open FileSystem (Written)

namespace Output

/-- The output after a line, which leaves one that failed to open as it is. -/
def after (out : Output) (line : String) : Output :=
  if out.file.handle.errorMessage.isSome then out else (out.addLine line).2

/-- A line does not change which file an output is bound to. -/
theorem file_after (out : Output) (line : String) : (out.after line).file = out.file := by
  unfold after
  split
  · rfl
  · exact file_addLine out line

/-- An output that has been opened writes the data of the line to its file. -/
theorem write_of_errorMessage {out : Output} (h : out.file.handle.errorMessage = none)
    (line : String) (fs : FileSystem) :
    out.write line fs =
      match fs.write out.file (out.addLine line).1 with
      | (.ok _, fs) => (none, out.after line, fs)
      | (.error e, fs) => (some e.message, out.after line, fs) := by
  rcases hresult : fs.write out.file (out.addLine line).1 with ⟨e | taken, later⟩ <;>
    simp [write, after, h, file_addLine, hresult]

/-- What an output does with a line: a text takes it, and any other output tells why it does not and
stays as it is. -/
theorem write_spec {out : Output} {fs : FileSystem} (hout : out.file.ForOutput fs) {line : String}
    {data : OpenMode → String} (hdata : out.file.handle.errorMessage = none →
      (out.addLine line).1 = data out.file.handle.mode) :
    (out.write line fs).1 = out.file.refusal? fs ∧ (out.write line fs).2.1 = out.after line ∧
      Written [out.file] (fun mode old => FileHandle.writeText mode old (data mode)) fs
        (out.write line fs).2.2 := by
  obtain ⟨file, body, lines⟩ := out
  cases hout with
  | failed i path e =>
    exact ⟨rfl, rfl, .of_not_takesAt (OpenFile.not_takesAt_failed i path e fs) _⟩
  | @opened _ spot hspot hnode hopen hwrite =>
    have hmessage : file.handle.errorMessage = none := by
      rw [FileHandle.errorMessage, ((file.spot?_eq_some_iff spot).1 hspot).2]
    rw [← FileSystem.isSome_face?, Option.isSome_iff_exists] at hnode
    obtain ⟨face, hface⟩ := hnode
    rw [write_of_errorMessage hmessage, hdata hmessage, OpenFile.refusal?_of_face? hspot hface]
    cases he : face.refusal? file.handle.path with
    | some e =>
      rw [FileSystem.write_of_refusal hspot hopen hwrite hface he]
      refine ⟨rfl, rfl, .of_not_takesAt (fun there old htakes => ?_) _⟩
      obtain rfl := htakes.eq_of_spot? hspot
      obtain rfl : face = .ofText old := Option.some.inj (hface.symm.trans htakes.text)
      exact absurd ((Face.refusal?_eq_none_iff file.handle.path _).2 ⟨old, rfl⟩) (by simp [he])
    | none =>
      obtain ⟨old, rfl⟩ := (Face.refusal?_eq_none_iff _ face).1 he
      have htakes : file.TakesAt fs spot old := ⟨hspot, hwrite, hface⟩
      obtain ⟨hok, hafter⟩ := FileSystem.write_of_takesAt htakes hopen (data file.handle.mode)
      cases hresult : fs.write file (data file.handle.mode) with
      | mk result written =>
        rw [hresult] at hok hafter
        obtain rfl : result = .ok () := hok
        exact ⟨rfl, rfl, .of_takesAt htakes hafter⟩

/-- What has gone through an output: the lines that an overwriting handle has been given so far, and
their number. -/
theorem foldl_after {file : OpenFile} (hmessage : file.handle.errorMessage = none)
    (lines : List String) :
    lines.foldl after { file } =
      { file
        body := if file.handle.mode = .overwrite then "\n".intercalate lines else ""
        lines := lines.length } := by
  induction lines using List.reverseRecOn with
  | nil => simp
  | append_singleton lines line ih =>
    rw [List.foldl_append, List.foldl_cons, List.foldl_nil, ih, after, hmessage]
    unfold addLine
    cases hmode : file.handle.mode with
    | overwrite =>
      rw [intercalate_append_singleton]
      by_cases hlines : lines = [] <;> simp [hlines, List.length_pos_iff]
    | _ => simp

/-- Nor do any number of lines. -/
theorem file_foldl_after (lines : List String) (out : Output) :
    (lines.foldl after out).file = out.file := by
  induction lines generalizing out with
  | nil => rfl
  | cons line lines ih => rw [List.foldl_cons, ih, file_after]

/-- The data for a line after others. -/
theorem addLine_foldl_after {file : OpenFile} (hmessage : file.handle.errorMessage = none)
    (before : List String) (line : String) :
    ((before.foldl after { file }).addLine line).1 = file.handle.mode.lineData before line := by
  rw [foldl_after hmessage]
  unfold addLine OpenMode.lineData
  cases file.handle.mode with
  | overwrite =>
    rw [intercalate_append_singleton]
    by_cases hbefore : before = [] <;> simp [hbefore, List.length_pos_iff]
  | _ => by_cases hbefore : before = [] <;> simp [hbefore]

end Output

/-! ### All outputs of a command -/

namespace Host

/-- The host after it has been told several things. -/
def tellAll (host : Host) (events : List HostEvent) : Host :=
  events.foldl tell host

/-- What the host is told, cut in two. -/
theorem tellAll_append (host : Host) (events more : List HostEvent) :
    host.tellAll (events ++ more) = (host.tellAll events).tellAll more :=
  List.foldl_append

/-- Nothing else becomes of a host that is told something. -/
theorem tellAll_eq (host : Host) (events : List HostEvent) :
    host.tellAll events = { host with events := host.events ++ events.toArray } := by
  induction events generalizing host with
  | nil => simp [tellAll]
  | cons event rest ih =>
    have hrest : host.tellAll (event :: rest) = (host.tell event).tellAll rest := rfl
    rw [hrest, ih, tell]
    simp

end Host

theorem message_redirectionUnavailable (path reason : String) :
    (ShellError.redirectionUnavailable path reason).message = path ++ ": " ++ reason :=
  rfl

namespace Io

/-- What the host is told of an output that does not take a line. -/
def report? (command : String) (fs : FileSystem) (out : Output) : Option HostEvent :=
  (out.file.refusal? fs).map fun reason =>
    .errorLine (command ++ ": " ++ out.file.handle.path ++ ": " ++ reason)

/-- The first output, and then the others. -/
theorem writeOutputs_cons {out : Output} {fs : FileSystem} {line : String}
    (hrefusal : (out.write line fs).1 = out.file.refusal? fs)
    (hafter : (out.write line fs).2.1 = out.after line) (command : String) (rest : List Output)
    (host : Host) :
    writeOutputs command line (out :: rest) fs host =
      let later := writeOutputs command line rest (out.write line fs).2.2
        (host.tellAll (report? command fs out).toList)
      (out.after line :: later.1, later.2) := by
  rcases hwrite : out.write line fs with ⟨refusal, written, middle⟩
  rw [hwrite] at hrefusal hafter
  obtain rfl : written = out.after line := hafter
  obtain rfl : refusal = out.file.refusal? fs := hrefusal
  rw [writeOutputs, hwrite, report?]
  cases out.file.refusal? fs with
  | none => rfl
  | some reason =>
    simp only [Option.map_some, message_redirectionUnavailable, Output.file_after,
      String.append_assoc]
    rfl

/-- What all outputs do with a line. -/
theorem writeOutputs_spec (command : String) {line : String} (data : OpenMode → String)
    {outputs : List Output} (fs : FileSystem) (host : Host)
    (hfor : ∀ out ∈ outputs, out.file.ForOutput fs)
    (hdistinct : OpenFile.Distinct (outputs.map Output.file))
    (hdata : ∀ out ∈ outputs, out.file.handle.errorMessage = none →
      (out.addLine line).1 = data out.file.handle.mode) :
    ∃ after, writeOutputs command line outputs fs host =
        (outputs.map (·.after line), after,
          host.tellAll (outputs.filterMap (report? command fs))) ∧
      Written (outputs.map Output.file)
        (fun mode old => FileHandle.writeText mode old (data mode)) fs after := by
  induction outputs generalizing fs host with
  | nil => exact ⟨fs, rfl, .nil _ fs⟩
  | cons out rest ih =>
    obtain ⟨hrefusal, hafter, hwritten⟩ :=
      Output.write_spec (hfor out List.mem_cons_self) (hdata out List.mem_cons_self)
    obtain ⟨hdistinct, hne⟩ := OpenFile.Distinct.cons hdistinct
    obtain ⟨after, hrest, hlater⟩ := ih (out.write line fs).2.2
      (host.tellAll (report? command fs out).toList)
      (fun other hmem => hwritten.forOutput (hfor other (List.mem_cons_of_mem _ hmem)))
      hdistinct (fun other hmem => hdata other (List.mem_cons_of_mem _ hmem))
    have hreports : report? command (out.write line fs).2.2 = report? command fs := by
      funext other
      rw [report?, hwritten.refusal?_eq, report?]
    have hall : (out :: rest).filterMap (report? command fs) =
        (report? command fs out).toList ++ rest.filterMap (report? command fs) := by
      rw [List.filterMap_cons]
      cases report? command fs out <;> rfl
    refine ⟨after, ?_, hwritten.cons hlater hne⟩
    rw [writeOutputs_cons hrefusal hafter, hrest, hreports, hall, Host.tellAll_append]
    rfl

/-! ### Any number of lines -/

/-- The redirections of a command as they are built: nothing has gone through the outputs, and no
input is for writing. -/
structure Built (io : Io) (fs : FileSystem) : Prop where
  fresh : ∀ out ∈ io.outputs, out = { file := out.file }
  outputs : ∀ out ∈ io.outputs, out.file.ForOutput fs
  inputs : ∀ file ∈ io.inputs, file.handle.mode.isWrite = false

/-- Writes lines one after the other. -/
def writeLines (io : Io) : List String → FileSystem → Host → Io × FileSystem × Host
  | [], fs, host => (io, fs, host)
  | line :: lines, fs, host =>
    let (io, fs, host) := io.writeLine line fs host
    io.writeLines lines fs host

/-- What the host is told of lines: the lines themselves if there are no outputs, and otherwise the
refusals of each line, in the order of the outputs. -/
def told (io : Io) (fs : FileSystem) (lines : List String) : List HostEvent :=
  if io.outputs.isEmpty then lines.map HostEvent.line
  else lines.flatMap fun _ => io.outputs.filterMap (report? io.command fs)

/-- What has become of the outputs, the filesystem and the host when lines have been written. -/
structure Sent (io : Io) (fs : FileSystem) (host : Host) (lines : List String)
    (now : Io × FileSystem × Host) : Prop where
  outputs : now.1 = { io with outputs := io.outputs.map (lines.foldl Output.after) }
  written : Written (io.outputs.map Output.file) (fun mode => mode.withLines lines) fs now.2.1
  heard : now.2.2 = host.tellAll (io.told fs lines)

variable {io : Io} {fs : FileSystem} {host : Host}

/-- One more line is told after the others. -/
theorem told_append (io : Io) (fs : FileSystem) (lines : List String) (line : String) :
    io.told fs (lines ++ [line]) = io.told fs lines ++ io.told fs [line] := by
  unfold told
  by_cases hempty : io.outputs.isEmpty = true
  · rw [if_pos hempty, if_pos hempty, if_pos hempty, List.map_append]
  · rw [if_neg hempty, if_neg hempty, if_neg hempty, List.flatMap_append]

/-- Lines do not change which files the outputs are bound to. -/
theorem map_file_foldl_after (outputs : List Output) (lines : List String) :
    (outputs.map (lines.foldl Output.after)).map Output.file = outputs.map Output.file := by
  rw [List.map_map]
  exact List.map_congr_left fun out _ => Output.file_foldl_after lines out

/-- What the outputs of a command do with one line after others. -/
theorem Built.writeOutputs_eq (hbuilt : io.Built fs)
    (hdistinct : OpenFile.Distinct (io.outputs.map Output.file)) {before : List String}
    {middle : FileSystem} (hwritten : Written (io.outputs.map Output.file)
      (fun mode => mode.withLines before) fs middle) (line : String) (host : Host) :
    ∃ after, writeOutputs io.command line (io.outputs.map (before.foldl Output.after)) middle host =
        (io.outputs.map ((before ++ [line]).foldl Output.after), after,
          host.tellAll (io.outputs.filterMap (report? io.command fs))) ∧
      Written (io.outputs.map Output.file) (fun mode => mode.withLines (before ++ [line]))
        fs after := by
  have hfor : ∀ out ∈ io.outputs.map (before.foldl Output.after), out.file.ForOutput middle := by
    intro out hmem
    obtain ⟨first, hfirst, rfl⟩ := List.mem_map.1 hmem
    rw [Output.file_foldl_after]
    exact hwritten.forOutput (hbuilt.outputs first hfirst)
  have hdata : ∀ out ∈ io.outputs.map (before.foldl Output.after),
      out.file.handle.errorMessage = none →
        (out.addLine line).1 = out.file.handle.mode.lineData before line := by
    intro out hmem hmessage
    obtain ⟨first, hfirst, rfl⟩ := List.mem_map.1 hmem
    rw [Output.file_foldl_after] at hmessage ⊢
    rw [hbuilt.fresh first hfirst]
    exact Output.addLine_foldl_after hmessage before line
  have hfiles := map_file_foldl_after io.outputs before
  obtain ⟨after, hwrite, hnew⟩ := writeOutputs_spec io.command (OpenMode.lineData · before line)
    middle host hfor (hfiles ▸ hdistinct) hdata
  refine ⟨after, ?_, ?_⟩
  · have houtputs : (·.after line) ∘ before.foldl Output.after =
        (before ++ [line]).foldl Output.after := by
      funext out
      rw [List.foldl_append, List.foldl_cons, List.foldl_nil, Function.comp_apply]
    have hreports : report? io.command middle ∘ before.foldl Output.after =
        report? io.command fs := by
      funext out
      rw [Function.comp_apply, report?, Output.file_foldl_after, hwritten.refusal?_eq, report?]
    rw [hwrite, List.map_map, List.filterMap_map, houtputs, hreports]
  · have hboth := hwritten.trans (hfiles ▸ hnew)
    simpa only [OpenMode.writeText_lineData] using hboth

/-- One more line. -/
theorem Sent.writeLine (hbuilt : io.Built fs)
    (hdistinct : OpenFile.Distinct (io.outputs.map Output.file)) {before : List String}
    {now : Io × FileSystem × Host} (h : io.Sent fs host before now) (line : String) :
    io.Sent fs host (before ++ [line]) (now.1.writeLine line now.2.1 now.2.2) := by
  obtain ⟨current, middle, heard⟩ := now
  obtain ⟨rfl, hwritten, rfl⟩ := h
  have hheard : host.tellAll (io.told fs (before ++ [line])) =
      (host.tellAll (io.told fs before)).tellAll (io.told fs [line]) := by
    rw [told_append, Host.tellAll_append]
  unfold Io.writeLine
  by_cases hempty : io.outputs.isEmpty = true
  · have hnone : io.outputs = [] := List.isEmpty_iff.1 hempty
    have hline : io.told fs [line] = [.line line] := if_pos hempty
    simp only [hnone, List.map_nil, List.isEmpty_nil, if_true] at hwritten ⊢
    refine ⟨by simp only [hnone, List.map_nil], ?_, by rw [hheard, hline]; rfl⟩
    rw [hnone]
    exact ⟨fun file hmem => absurd hmem List.not_mem_nil, hwritten.kept⟩
  · have hreports : io.told fs [line] = io.outputs.filterMap (report? io.command fs) := by
      rw [told, if_neg hempty, List.flatMap_singleton]
    obtain ⟨after, hwrite, htext⟩ :=
      hbuilt.writeOutputs_eq hdistinct hwritten line (host.tellAll (io.told fs before))
    simp only [List.isEmpty_map, hempty, Bool.false_eq_true, if_false, hwrite]
    exact ⟨rfl, htext, by rw [hheard, hreports]⟩

/-- Nothing has been written yet. -/
theorem sent_nil (io : Io) (fs : FileSystem) (host : Host) : io.Sent fs host [] (io, fs, host) where
  outputs := by simp
  written := ⟨fun file hmem spot old htakes => htakes.text, fun _ _ => rfl⟩
  heard := by simp [told, Host.tellAll]

/-- More lines, by induction on them. -/
theorem Sent.writeLines (hbuilt : io.Built fs)
    (hdistinct : OpenFile.Distinct (io.outputs.map Output.file)) {before : List String}
    {now : Io × FileSystem × Host} (h : io.Sent fs host before now) (lines : List String) :
    io.Sent fs host (before ++ lines) (now.1.writeLines lines now.2.1 now.2.2) := by
  induction lines generalizing before now with
  | nil => simpa [Io.writeLines] using h
  | cons line lines ih =>
    have hrest := ih (h.writeLine hbuilt hdistinct line)
    rw [List.append_assoc, List.singleton_append] at hrest
    exact hrest

/-- What lines come to that are written one after the other. -/
theorem sent_writeLines (hbuilt : io.Built fs)
    (hdistinct : OpenFile.Distinct (io.outputs.map Output.file)) (host : Host)
    (lines : List String) : io.Sent fs host lines (io.writeLines lines fs host) :=
  (sent_nil io fs host).writeLines hbuilt hdistinct lines

/-! ### The release -/

/-- Files are closed one after the other. -/
theorem closeFiles_append_snd (first rest : List OpenFile) (fs : FileSystem) :
    (closeFiles (first ++ rest) fs).2 = (closeFiles rest (closeFiles first fs).2).2 := by
  induction first generalizing fs with
  | nil => rfl
  | cons file first ih =>
    rw [List.cons_append, Shell.closeFiles_cons_snd, ih, Shell.closeFiles_cons_snd]

/-- Closing files that are not for writing changes nothing. -/
theorem closeFiles_of_not_isWrite {files : List OpenFile}
    (h : ∀ file ∈ files, file.handle.mode.isWrite = false) (fs : FileSystem) :
    (closeFiles files fs).2 = fs := by
  induction files with
  | nil => rfl
  | cons file files ih =>
    have hclose : (fs.close file).2 = fs := by
      have hvolume := Volume.close_of_not_isWrite (h file List.mem_cons_self)
        (fs.volume file.volume) fs.outside
      unfold FileSystem.close
      simp only [hvolume]
      exact FileSystem.put_volume fs file.volume fs.outside
    rw [Shell.closeFiles_cons_snd, hclose, ite_self]
    exact ih fun other hmem => h other (List.mem_cons_of_mem _ hmem)

/-- Closing one output ends the text it takes to with a newline. -/
theorem written_close {file : OpenFile} (hfor : file.ForOutput fs) :
    Written [file] (fun _ old => old ++ "\n") fs
      (if file.handle.isError then fs else (fs.close file).2) := by
  cases hfor with
  | failed i path e =>
    exact .of_not_takesAt (OpenFile.not_takesAt_failed i path e fs) _
  | @opened _ spot hspot hnode hopen hwrite =>
    have herror : file.handle.isError = false := by
      unfold FileHandle.isError
      cases hmode : file.handle.mode <;> simp_all [OpenMode.isWrite]
    rw [if_neg (by simp [herror])]
    by_cases htakes : ∃ old, file.TakesAt fs spot old
    · obtain ⟨old, htakes⟩ := htakes
      exact .of_takesAt htakes (FileSystem.close_of_takesAt htakes hopen)
    · have hnot : ∀ there old, ¬ file.TakesAt fs there old := by
        intro there old hthere
        obtain rfl := hthere.eq_of_spot? hspot
        exact htakes ⟨old, hthere⟩
      have hsame := FileSystem.close_of_not_takesAt hopen hnot fun there hthere => by
        obtain rfl : spot = there := Option.some.inj (hspot.symm.trans hthere)
        exact hnode
      rw [hsame]
      exact .of_not_takesAt hnot _

/-- Closing the outputs ends each text with a newline. -/
theorem written_closeFiles {files : List OpenFile} (hdistinct : OpenFile.Distinct files)
    (hfor : ∀ file ∈ files, file.ForOutput fs) :
    Written files (fun _ old => old ++ "\n") fs (closeFiles files fs).2 := by
  induction files generalizing fs with
  | nil => exact .nil _ fs
  | cons file files ih =>
    obtain ⟨hdistinct, hne⟩ := hdistinct.cons
    have hfirst := written_close (hfor file List.mem_cons_self)
    rw [Shell.closeFiles_cons_snd]
    refine hfirst.cons (ih hdistinct fun other hmem => ?_) hne
    exact hfirst.forOutput (hfor other (List.mem_cons_of_mem _ hmem))

/-- When lines have been written, the release ends the texts that took them with a newline. -/
theorem Sent.release (hbuilt : io.Built fs)
    (hdistinct : OpenFile.Distinct (io.outputs.map Output.file)) {lines : List String}
    {now : Io × FileSystem × Host} (h : io.Sent fs host lines now) :
    Written (io.outputs.map Output.file) (fun mode old => mode.withLines lines old ++ "\n") fs
      (now.1.release now.2.1).2.2 := by
  have hinputs : now.1.inputs = io.inputs := by rw [h.outputs]
  have hfiles : now.1.outputs.map Output.file = io.outputs.map Output.file := by
    rw [h.outputs]
    exact map_file_foldl_after io.outputs lines
  have hfor : ∀ file ∈ io.outputs.map Output.file, file.ForOutput now.2.1 := by
    intro file hmem
    obtain ⟨out, hout, rfl⟩ := List.mem_map.1 hmem
    exact h.written.forOutput (hbuilt.outputs out hout)
  have hclosed := h.written.trans (written_closeFiles hdistinct hfor)
  rw [Io.release, hinputs, hfiles]
  simp only
  rw [closeFiles_append_snd, closeFiles_of_not_isWrite hbuilt.inputs]
  exact hclosed

end Io

/-! ### Redirections as they are built -/

namespace Shell

/-- Opening more redirections leaves a file for output one. -/
theorem forOutput_openAll {sh : Shell} {file : OpenFile} (h : file.ForOutput sh.fs)
    (redirections : List Redirection) : file.ForOutput (sh.openAll redirections).2.fs := by
  induction redirections generalizing sh with
  | nil => exact h
  | cons r rest ih => exact ih (h.openFile _ _)

theorem isWrite_openMode (mode : RedirectMode) : mode.openMode.isWrite = mode.isWrite := by
  cases mode <;> rfl

/-- The files of redirections for writing are files for output. -/
theorem forOutput_of_mem_openAll {sh : Shell}
    (hbelow : ∀ m ∈ sh.fs.mounts, m.volume < sh.fs.volumes.length)
    {redirections : List Redirection} (hwrite : ∀ r ∈ redirections, r.mode.isWrite = true) :
    ∀ file ∈ (sh.openAll redirections).1, file.ForOutput (sh.openAll redirections).2.fs := by
  induction redirections generalizing sh with
  | nil => exact fun file hmem => absurd hmem List.not_mem_nil
  | cons r rest ih =>
    obtain ⟨hfirst, hrest⟩ := List.forall_mem_cons.1 hwrite
    have hopened : (sh.openFile r.target r.mode.openMode).1.ForOutput
        (sh.openFile r.target r.mode.openMode).2.fs :=
      FileSystem.forOutput_openFile hbelow ((isWrite_openMode r.mode).trans hfirst)
    have hshape : (sh.openFile r.target r.mode.openMode).2.fs.shape = sh.fs.shape :=
      sh.fs.shape_openFile (sh.resolvePath r.target) r.mode.openMode
    have hnext : ∀ m ∈ (sh.openFile r.target r.mode.openMode).2.fs.mounts,
        m.volume < (sh.openFile r.target r.mode.openMode).2.fs.volumes.length := by
      obtain ⟨hmounts, hlength⟩ := Prod.mk.inj hshape
      rw [hmounts, hlength]
      exact hbelow
    exact List.forall_mem_cons.2 ⟨forOutput_openAll hopened rest, ih hnext hrest⟩

/-- The files of redirections for reading are not for writing. -/
theorem isWrite_of_mem_openAll {sh : Shell} {redirections : List Redirection}
    (hread : ∀ r ∈ redirections, r.mode.isWrite = false) :
    ∀ file ∈ (sh.openAll redirections).1, file.handle.mode.isWrite = false := by
  induction redirections generalizing sh with
  | nil => exact fun file hmem => absurd hmem List.not_mem_nil
  | cons r rest ih =>
    obtain ⟨hfirst, hrest⟩ := List.forall_mem_cons.1 hread
    have hopened : (sh.openFile r.target r.mode.openMode).1.handle.mode.isWrite = false := by
      rcases sh.fs.openFile_fst (sh.resolvePath r.target) r.mode.openMode with
        ⟨place, -, hopened⟩ | ⟨i, reported, e, hfailed⟩
      · rw [openFile, hopened]
        exact (isWrite_openMode r.mode).trans hfirst
      · rw [openFile, hfailed]
        rfl
    exact List.forall_mem_cons.2 ⟨hopened, ih hrest⟩

/-- The redirections of a command are built as their outputs need it, whatever they lead to. -/
theorem built_buildIo {sh : Shell} (hbelow : ∀ m ∈ sh.fs.mounts, m.volume < sh.fs.volumes.length)
    (command : String) (redirections : List Redirection) :
    (sh.buildIo command redirections).1.Built (sh.buildIo command redirections).2.fs := by
  unfold buildIo
  refine ⟨fun out hout => ?_, fun out hout => ?_, ?_⟩
  · obtain ⟨file, -, rfl⟩ := List.mem_map.1 hout
    rfl
  · obtain ⟨file, hfile, rfl⟩ := List.mem_map.1 hout
    refine forOutput_openAll (forOutput_of_mem_openAll hbelow (fun r hr => ?_) file hfile) _
    exact (List.mem_filter.1 hr).2
  · refine isWrite_of_mem_openAll fun r hr => ?_
    simpa using (List.mem_filter.1 hr).2

end Shell

namespace Io

variable {io : Io} {fs : FileSystem}

/-- What a command writes arrives, whatever its outputs are bound to, as long as they are bound to
different nodes.  When any lines have been written and the redirections have been released, each
text that one of them takes to holds the lines, in place of what it held or after it, and one more
newline; nothing else shows a change.  The host has been told of each line that an output did not
take, which is every line for an output that is not bound to a writeable text, and of nothing else;
without outputs it has been told the lines. -/
theorem output_run (hbuilt : io.Built fs)
    (hdistinct : OpenFile.Distinct (io.outputs.map Output.file)) (host : Host)
    (lines : List String) :
    Written (io.outputs.map Output.file) (fun mode old => mode.withLines lines old ++ "\n") fs
        ((io.writeLines lines fs host).1.release (io.writeLines lines fs host).2.1).2.2 ∧
      (∀ out ∈ io.outputs, out.file.refusal? fs = none ↔
        ∃ spot old, out.file.TakesAt fs spot old) ∧
      (io.writeLines lines fs host).2.2 = host.tellAll (io.told fs lines) := by
  have hsent := sent_writeLines hbuilt hdistinct host lines
  exact ⟨hsent.release hbuilt hdistinct, fun out hmem =>
    (hbuilt.outputs out hmem).refusal?_eq_none_iff, hsent.heard⟩

/-- A shell with a node of each kind to write to. -/
def mixedShell : Shell where
  fs := FileSystem.mount {}
    { device := "none", mountPoint := "/", typeName := "jfs", options := "" }
    (.supplied (.directory true [
      ("added", .file true (.text "a")),
      ("fixed", .file false (.text "b")),
      ("over", .file true (.text "c")),
      ("program", .file true (.program "yes")),
      ("remote", .file true (.remote "there")),
      ("sub", .directory true [])]))
  draws := .ofSeed 0

/-- Redirections to each of its nodes and to a file that cannot be created. -/
def mixedRedirections : List Redirection :=
  [⟨"/over", .overwrite⟩, ⟨"/fixed", .append⟩, ⟨"/none/file", .overwrite⟩, ⟨"/added", .append⟩,
    ⟨"/sub", .append⟩, ⟨"/program", .overwrite⟩, ⟨"/remote", .append⟩]

/-- Two lines, one with a newline of its own, to outputs of each kind. -/
theorem output_run_mixed :
    let io := (mixedShell.buildIo "c" mixedRedirections).1
    let fs := (mixedShell.buildIo "c" mixedRedirections).2.fs
    let sent := io.writeLines ["l\nm", "n"] fs {}
    (io.Built fs ∧ OpenFile.Distinct (io.outputs.map Output.file)) ∧
      Written (io.outputs.map Output.file)
        (fun mode old => mode.withLines ["l\nm", "n"] old ++ "\n") fs
        (sent.1.release sent.2.1).2.2 ∧
      (∀ out ∈ io.outputs, out.file.refusal? fs = none ↔
        ∃ spot old, out.file.TakesAt fs spot old) ∧
      sent.2.2 = Host.tellAll {} (io.told fs ["l\nm", "n"]) := by
  have hbelow : ∀ m ∈ mixedShell.fs.mounts, m.volume < mixedShell.fs.volumes.length := by
    decide +kernel
  have hbuilt := Shell.built_buildIo hbelow "c" mixedRedirections
  have hdistinct : OpenFile.Distinct
      ((mixedShell.buildIo "c" mixedRedirections).1.outputs.map Output.file) := by
    unfold OpenFile.Distinct
    decide +kernel
  exact ⟨⟨hbuilt, hdistinct⟩, output_run hbuilt hdistinct {} ["l\nm", "n"]⟩

example :
    let built := mixedShell.buildIo "c" mixedRedirections
    let sent := built.1.writeLines ["l\nm", "n"] built.2.fs {}
    let after := (sent.1.release sent.2.1).2.2
    after.textAt? ⟨0, ["over"]⟩ = some "l\nm\nn\n" ∧
      after.textAt? ⟨0, ["added"]⟩ = some "al\nm\nn\n" ∧ sent.2.2.events.size = 10 := by
  decide +kernel

end Io

end MountShell
