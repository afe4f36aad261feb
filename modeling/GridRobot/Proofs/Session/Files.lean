import GridRobot.Proofs.Session.TextRoundTrip
import GridRobot.Session.File

/-!
# Saved sessions are loaded

A session can be saved under every plain name, and what is in the file is the binary form or
the text of the session, by the name.  The binary form is always read back.  The text is read
back only if it nests no more than 127 containers, although it is written however deep the
blocks of the program are: a loop in a loop, 42 levels deep, cannot be loaded from a file
with a JSON name any more.

**Results.**
* `ofFile_toFile`: what reading the file of a session gives.
* `load_of_saved`: what loading a saved session gives, for any two names.
* `lt_depth_push_nested`: deeply nested loops make the text of any session too deep.
* `nested_loop_not_loaded`: a session that is saved and cannot be loaded.
-/

namespace GridRobot

/-- A loop in a loop, some levels deep, around nothing. -/
def Block.nested : Nat → Block
  | 0 => .times 1 []
  | n + 1 => .times 1 [nested n]

theorem Block.storable_nested (n : Nat) : (nested n).Storable := by
  induction n with
  | zero => exact .times (by decide) (by simp)
  | succ n ih =>
      have hlength : [nested n].length < UInt64.size := by
        rw [List.length_singleton]
        decide
      exact .times hlength (by simpa using ih)

/-- Every loop around another one takes three containers more. -/
theorem Block.depth_nested (n : Nat) : (nested n).toJson.depth = 3 * n + 3 := by
  induction n with
  | zero =>
      rfl
  | succ n ih =>
      rw [nested, depth_times, allToJson, allToJson, Json.depthAll, Json.depthAll, ih]
      omega

namespace Session

variable {s : Session}

/-- The file of a session is read back, with an empty machine, unless its text is nested too
deep. -/
theorem ofFile_toFile (hs : s.scene.Sound) (h : s.Storable) (name : String) :
    ofFile name (s.toFile name) =
      if isJsonName name = true ∧ Json.maxDepth < s.toJson.depth then .error .json
      else .ok { s with machine := .idle none } := by
  by_cases hname : isJsonName name = true
  · simp only [ofFile, toFile, hname, if_true, true_and, Reader.fromUTF8?_toUTF8,
      ofText_toText_of_sound hs, ← Nat.not_le, ite_not]
  · rw [ofFile, toFile, if_neg hname, if_neg hname, ofBytes_toBytes_of_sound hs h,
      if_neg (not_and_of_not_left _ hname)]

theorem save_of_plain {name : String} (hname : isPlainName name = true) (s : Session)
    (f : Folder) : s.save name f = .ok (f.write name (s.toFile name)) :=
  if_pos hname

theorem load_of_read? {name : String} {f : Folder} {bytes : Bytes}
    (hname : isPlainName name = true) (hread : f.read? name = some bytes) :
    load name f = ofFile name bytes := by
  simp only [load, hname, if_true, hread]

/-- **Saved sessions.**  Whatever has been done to a session, it can be saved under any plain
names, and loading it under one of them gives its scene, program and macros, with an empty
machine; only where the name asks for the text and this nests more than 127 containers, it
is refused. -/
theorem load_of_saved (h : s.Reachable) (hs : s.Storable) {name other : String}
    (hname : isPlainName name = true) (hother : isPlainName other = true) (hne : name ≠ other)
    (f : Folder) :
    ∃ g k, s.save name f = .ok g ∧ s.save other g = .ok k ∧
      ∀ n, n = name ∨ n = other →
        load n k = if isJsonName n = true ∧ 127 < s.toJson.depth then .error .json
          else .ok { s with machine := .idle none } := by
  refine ⟨_, _, save_of_plain hname s f, save_of_plain hother s _, ?_⟩
  rintro n (rfl | rfl)
  · have hread : ((f.write n (s.toFile n)).write other (s.toFile other)).read? n
        = some (s.toFile n) := by
      rw [Folder.read?_write, if_neg hne, Folder.read?_write, if_pos rfl]
    rw [load_of_read? hname hread]
    exact ofFile_toFile h.sound hs n
  · rw [load_of_read? hother (by rw [Folder.read?_write, if_pos rfl])]
    exact ofFile_toFile h.sound hs n

/-- Loops that are nested 42 levels deep make the form of any session too deep. -/
theorem lt_depth_push_nested (s : Session) {n : Nat} (hn : 41 ≤ n) :
    Json.maxDepth < (s.push (.nested n)).toJson.depth := by
  refine Nat.lt_of_not_le fun h => ?_
  have hlist := Program.depth_toJson_le_iff.1 (depth_toJson_le_iff.1 h).1
  have hblock := Block.depth_listToJson_le_iff.1 hlist (.nested n) List.mem_concat_self
  rw [Block.depth_nested] at hblock
  omega

/-- A loop 42 levels deep is saved under two names, and loaded from the binary form only. -/
theorem load_of_saved_nested_loop :
    let first : Session := ⟨⟨⟨0, 0, .east⟩, ⟨1, 1, #[.empty]⟩⟩, [], .empty, .idle none⟩
    let s := first.after [.push (.nested 41)]
    let name := "deep.json"
    let other := "deep.kss"
    (s.Reachable ∧ s.Storable ∧ 127 < s.toJson.depth) ∧
    (isPlainName name = true ∧ isPlainName other = true ∧ name ≠ other ∧
      isJsonName name = true ∧ isJsonName other = false) ∧
    ∃ g k, s.save name .empty = .ok g ∧ s.save other g = .ok k ∧
      ∀ n, n = name ∨ n = other →
        load n k = if isJsonName n = true ∧ 127 < s.toJson.depth then .error .json
          else .ok { s with machine := .idle none } := by
  intro first s name other
  have hnew : Session.new 1 1 = .ok first := by cbv
  have hreach : s.Reachable := (Reachable.made (.new hnew)).after _
  have hs : s.Storable := by
    have hprogram : Block.ListStorable [.nested 41] :=
      ⟨by simp [UInt64.size], by simpa using Block.storable_nested 41⟩
    have hmacros : Macros.empty.Storable := ⟨by decide, by simp [Macros.empty]⟩
    exact ⟨hprogram, hmacros⟩
  have hname : isPlainName name = true := by decide
  have hother : isPlainName other = true := by decide
  have hne : name ≠ other := by decide
  exact ⟨⟨hreach, hs, first.lt_depth_push_nested (Nat.le_refl 41)⟩,
    ⟨hname, hother, hne, by decide, by decide⟩, load_of_saved hreach hs hname hother hne .empty⟩

/-- A session with such a loop can be saved under a JSON name, and then not be loaded. -/
theorem nested_loop_not_loaded :
    let first : Session := ⟨⟨⟨0, 0, .east⟩, ⟨1, 1, #[.empty]⟩⟩, [], .empty, .idle none⟩
    let s := first.after [.push (.nested 41)]
    s.Reachable ∧ ∃ g, s.save "deep.json" .empty = .ok g ∧ load "deep.json" g = .error .json := by
  intro first s
  have hnew : Session.new 1 1 = .ok first := by cbv
  have hreach : s.Reachable := (Reachable.made (.new hnew)).after _
  have hname : isPlainName "deep.json" = true := by decide
  have hdepth : Json.maxDepth < s.toJson.depth := first.lt_depth_push_nested (Nat.le_refl 41)
  refine ⟨hreach, _, save_of_plain hname s _, ?_⟩
  rw [load_of_read? hname (by rw [Folder.read?_write, if_pos rfl]), ofFile, if_pos (by decide),
    toFile, if_pos (by decide), Reader.fromUTF8?_toUTF8]
  exact (ofText_toText_of_sound hreach.sound).trans (if_neg (Nat.not_le_of_lt hdepth))

end Session

end GridRobot
