import BleGateway.ClientLoad
import Mathlib.Data.List.Basic
import Mathlib.Data.List.TakeWhile

/-!
# Options in the configuration file (`mosquitto_client/client_shared.c`, lines 168–196)

A command line can be written to the configuration file, one option with its value a line.

* `written`: the file for a command line.
* `Writable`: the options that the loop over the file finds again: `fgets` reads 1023 characters at
  most, `strtok` splits at blanks, and a line with `#` in front is a comment.
* `load_written`: such a file does what the command line in front of the actual one does.
-/

namespace Ble.Mosquitto

/-- The default configuration file, if it can be opened. -/
def Env.file (env : Env) (c : Client) : Option (List Char) :=
  (env.loc c.pubOrSub).bind env.fopen

/-- An option as a line. -/
def useLine : Use String → List Char
  | .flag w => w.toList
  | .value w v => w.toList ++ ' ' :: v.toList

/-- The file for a command line. -/
def written (c : Client) (ws : List String) : List Char :=
  (((commandLine c).uses ws).map useLine).flatMap (· ++ ['\n'])

/-- A word between blanks. -/
def IsWord (w : String) : Prop :=
  w.toList ≠ [] ∧ ∀ ch ∈ w.toList, ch ≠ ' ' ∧ ch ≠ '\n' ∧ ch ≠ '\r' ∧ ch ≠ '\x00'

/-- An option that a line can hold. -/
structure Writable (u : Use String) : Prop where
  isWord : ∀ w ∈ u.words, IsWord w
  noComment : u.word.toList.head? ≠ some '#'
  short : (useLine u).length ≤ 1022

instance (w : String) : Decidable (IsWord w) :=
  have := List.decidableBAll (fun ch => ch ≠ ' ' ∧ ch ≠ '\n' ∧ ch ≠ '\r' ∧ ch ≠ '\x00') w.toList
  inferInstanceAs (Decidable (_ ∧ _))

instance (u : Use String) : Decidable (Writable u) :=
  decidable_of_iff ((∀ w ∈ u.words, IsWord w) ∧ u.word.toList.head? ≠ some '#' ∧
      (useLine u).length ≤ 1022)
    ⟨fun ⟨hw, hc, hs⟩ => ⟨hw, hc, hs⟩, fun ⟨hw, hc, hs⟩ => ⟨hw, hc, hs⟩⟩

/-! ## One line -/

theorem cString_eq {l : List Char} (h : '\x00' ∉ l) : cString l = l :=
  List.takeWhile_eq_self_iff.mpr fun _ hch => decide_eq_true fun heq => h (heq ▸ hch)

/-- The end of the line goes, and nothing else. -/
theorem stripEol_line {l : List Char} (hne : l ≠ []) (hn : '\n' ∉ l) (hr : '\r' ∉ l) :
    stripEol (l ++ ['\n']) = some l := by
  obtain ⟨ch, front, hrev⟩ := List.exists_cons_of_ne_nil (List.reverse_ne_nil_iff.mpr hne)
  have hmem : ch ∈ l := List.mem_reverse.mp (hrev ▸ List.mem_cons_self)
  have hlast : ¬(ch = '\n' ∨ ch = '\r') := by
    rintro (rfl | rfl)
    · exact hn hmem
    · exact hr hmem
  have hstrip : stripRev ('\n' :: ch :: front) = some (ch :: front) := by
    rw [stripRev, if_pos (.inl rfl), stripRev, if_neg hlast]
  rw [stripEol, List.reverse_append, hrev, List.reverse_singleton, List.singleton_append, hstrip,
    Option.map_some, ← hrev, List.reverse_reverse]

section

variable {w v : List Char} (hw : w ≠ []) (hblank : ' ' ∉ w)
include hw hblank

theorem dropWhile_blank (rest : List Char) : (w ++ rest).dropWhile (· = ' ') = w ++ rest := by
  obtain ⟨ch, w, rfl⟩ := List.exists_cons_of_ne_nil hw
  have hch : ch ≠ ' ' := fun h => hblank (h ▸ List.mem_cons_self)
  exact List.dropWhile_cons_of_neg (by simpa using hch)

theorem strtok_append (rest : List Char) : strtok (w ++ rest) =
    some (w ++ rest.takeWhile (· ≠ ' '), (rest.dropWhile (· ≠ ' ')).tail) := by
  have hno : ∀ ch ∈ w, decide (ch ≠ ' ') = true := fun ch hch =>
    decide_eq_true fun h => hblank (h ▸ hch)
  rw [strtok, dropWhile_blank hw hblank]
  obtain ⟨ch, w', hcons⟩ := List.exists_cons_of_ne_nil hw
  have happ : w ++ rest = ch :: (w' ++ rest) := by rw [hcons, List.cons_append]
  rw [happ]
  simp only
  rw [← happ, List.takeWhile_append_of_pos hno, List.dropWhile_append_of_pos hno]

/-- A word alone on its line. -/
theorem lineArgs_flag : lineArgs w = [String.ofList w] := by
  have hfirst := strtok_append hw hblank []
  rw [List.append_nil] at hfirst
  rw [lineArgs, hfirst]
  simp [strtok]

/-- A word with its value. -/
theorem lineArgs_value (hv : v ≠ []) (hvblank : ' ' ∉ v) :
    lineArgs (w ++ ' ' :: v) = [String.ofList w, String.ofList v] := by
  have hsecond := strtok_append hv hvblank []
  rw [List.append_nil] at hsecond
  rw [lineArgs, strtok_append hw hblank]
  simp [hsecond]

end

theorem IsWord.notMem {w : String} (h : IsWord w) :
    ' ' ∉ w.toList ∧ '\n' ∉ w.toList ∧ '\r' ∉ w.toList ∧ '\x00' ∉ w.toList :=
  ⟨fun hm => (h.2 _ hm).1 rfl, fun hm => (h.2 _ hm).2.1 rfl, fun hm => (h.2 _ hm).2.2.1 rfl,
    fun hm => (h.2 _ hm).2.2.2 rfl⟩

/-- The words of the line. -/
theorem line_spec {u : Use String} (h : Writable u) :
    useLine u ≠ [] ∧ '\n' ∉ useLine u ∧ '\r' ∉ useLine u ∧ '\x00' ∉ useLine u ∧
      lineArgs (useLine u) = u.words ∧ (useLine u).head? = u.word.toList.head? := by
  cases u with
  | flag w =>
    have hw := h.isWord w (List.mem_singleton_self w)
    obtain ⟨hblank, hn, hr, hz⟩ := hw.notMem
    refine ⟨hw.1, hn, hr, hz, ?_, rfl⟩
    rw [useLine, lineArgs_flag hw.1 hblank, String.ofList_toList]
    rfl
  | value w v =>
    have hw := h.isWord w List.mem_cons_self
    have hv := h.isWord v (List.mem_cons_of_mem w (List.mem_singleton_self v))
    obtain ⟨hblank, hn, hr, hz⟩ := hw.notMem
    obtain ⟨hvblank, hvn, hvr, hvz⟩ := hv.notMem
    have hno {ch : Char} (hch : ch ≠ ' ') (hw : ch ∉ w.toList) (hv : ch ∉ v.toList) :
        ch ∉ w.toList ++ ' ' :: v.toList := by
      simp [hch, hw, hv]
    refine ⟨List.append_ne_nil_of_left_ne_nil hw.1 _, hno (by decide) hn hvn,
      hno (by decide) hr hvr, hno (by decide) hz hvz, ?_, ?_⟩
    · rw [useLine, lineArgs_value hw.1 hblank hv.1 hvblank, String.ofList_toList,
        String.ofList_toList]
      rfl
    · exact List.head?_append_of_ne_nil _ hw.1

/-- The loop over the file does with the line what the loop over words does with its words. -/
theorem fileLine_useLine {c : Client} {u : Use String} (h : Writable u) (cfg : MosqConfig) :
    fileLine c cfg (useLine u ++ ['\n']) =
      ((commandLine c).run cfg u.words).mapError .error := by
  obtain ⟨hne, hn, hr, hz, hargs, hhead⟩ := line_spec h
  have hcomment : (useLine u ++ ['\n']).head? ≠ some '#' := by
    rw [List.head?_append_of_ne_nil _ hne, hhead]
    exact h.noComment
  have hzero : '\x00' ∉ useLine u ++ ['\n'] := by simp [hz]
  rw [fileLine, if_neg hcomment, cString_eq hzero, stripEol_line hne hn hr]
  simp only [hargs, lineProc_eq_run]
  cases (commandLine c).run cfg u.words <;> rfl

/-! ## The whole file -/

theorem fileLines_useLine {c : Client} {us : List (Use String)}
    (hcomplete : ∀ u ∈ us, (commandLine c).Complete u.words) (h : ∀ u ∈ us, Writable u)
    (cfg : MosqConfig) :
    fileLines c cfg (us.map fun u => useLine u ++ ['\n']) =
      ((commandLine c).run cfg (us.flatMap Use.words)).mapError .error := by
  induction us generalizing cfg with
  | nil => rfl
  | cons u us ih =>
    obtain ⟨hu, hus⟩ := List.forall_mem_cons.mp h
    obtain ⟨hcu, hcus⟩ := List.forall_mem_cons.mp hcomplete
    rw [List.map_cons, fileLines, fileLine_useLine hu, List.flatMap_cons,
      CommandLine.run_append hcu]
    cases (commandLine c).run cfg u.words with
    | error e => rfl
    | ok cfg₁ => exact ih hcus hus cfg₁

/-- The lines that `fgets` reads from the file. -/
theorem lines_written {c : Client} {env : Env} {ws : List String}
    (h : ∀ u ∈ (commandLine c).uses ws, Writable u) (hfile : env.file c = some (written c ws)) :
    env.lines c = ((commandLine c).uses ws).map fun u => useLine u ++ ['\n'] := by
  have hfit : ∀ l ∈ ((commandLine c).uses ws).map useLine, '\n' ∉ l ∧ l.length ≤ 1022 := by
    intro l hl
    obtain ⟨u, hu, rfl⟩ := List.mem_map.mp hl
    exact ⟨(line_spec (h u hu)).2.1, (h u hu).short⟩
  rw [Env.file] at hfile
  simp only [Env.lines, hfile, written]
  rw [Fgets.pieces_lines hfit, List.map_map]
  rfl

/-- **Options can be moved to the file.** A complete command line that is written to the file does
what it does in front of the actual command line, errors included. -/
theorem load_written {c : Client} {env env' : Env} {ws : List String}
    (hcomplete : (commandLine c).Complete ws) (h : ∀ u ∈ (commandLine c).uses ws, Writable u)
    (hfile : env.file c = some (written c ws)) (hnone : env'.file c = none) (args : List String) :
    clientConfigLoad c env args = clientConfigLoad c env' (ws ++ args) := by
  have hlines :=
    fileLines_useLine (fun u hu => CommandLine.complete_words hcomplete hu) h initConfig
  rw [← lines_written h hfile, CommandLine.flatMap_uses hcomplete] at hlines
  have hno : env'.lines c = [] := by
    rw [Env.file] at hnone
    simp only [Env.lines, hnone]
  unfold clientConfigLoad
  rw [hlines, hno, fileLines]
  simp only [lineProc_eq_run, CommandLine.run_append hcomplete]
  cases (commandLine c).run initConfig ws <;> rfl

/-- A home directory with a file that holds `-h a` and `-q 1`. -/
def fileEnv : Env where
  xdgConfigHome := none
  home := some "/root"
  fopen name := if name = "/root/.config/mosquitto_sub" then some "-h a\n-q 1\n".toList else none

/-- `-t led` with this file is `-h a -q 1 -t led`. -/
theorem load_written_hostQos :
    clientConfigLoad subscriber fileEnv ["-t", "led"] =
      clientConfigLoad subscriber noFile ["-h", "a", "-q", "1", "-t", "led"] :=
  @load_written subscriber fileEnv noFile ["-h", "a", "-q", "1"] trivial (by decide) (by decide) rfl
    ["-t", "led"]

end Ble.Mosquitto
