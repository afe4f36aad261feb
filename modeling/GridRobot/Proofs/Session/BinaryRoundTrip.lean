import GridRobot.Proofs.Binary.Blocks
import GridRobot.Proofs.Program.Tables
import GridRobot.Proofs.Session.Safety

/-!
# The binary form of a session is read back

A session is read back from its bytes as it was, but for its machine, which is empty
afterwards.  The check behind the reader has nothing to object to, since the scene of a
session is sound whatever has been done to it.  The macros are written in the order of
their names, so the table that is built from them is the same again.

All lengths of a session have to be numbers of 64 bits.  This is so for everything that is
held in memory, and for everything that has been read from bytes.

**Results.**
* `Macros.read_append`: a table of macros is read back.
* `Session.ofBytes_toBytes_of_sound`: a session with a sound scene is read back.
* `Session.storable_of_ofBytes`: what has been read from bytes can be written again.
* `Session.binary_round_trip`: every session is read back from its binary form.
-/

namespace GridRobot

open Reader

theorem Cell.read_append (c : Cell) (rest : Bytes) :
    Cell.read (c.toBytes ++ rest) = .ok (c, rest) := by
  cases c with
  | beepers n =>
      rw [toBytes, List.append_assoc]
      exact (bind_of_ok (form_append (by decide) _)).trans (bind_of_ok (short_append n rest))
  | _ =>
      exact bind_of_ok (form_append (by decide) rest)

theorem Robot.read_append (r : Robot) (rest : Bytes) :
    Robot.read (r.toBytes ++ rest) = .ok (r, rest) := by
  have hread : Robot.read (r.toBytes ++ rest)
      = .ok (⟨.ofNat r.x.toNat, .ofNat r.y.toNat, r.facing⟩, rest) := by
    rw [toBytes, List.append_assoc, List.append_assoc]
    exact (bind_of_ok (word_append r.x.toNat_lt _)).trans
      ((bind_of_ok (word_append r.y.toNat_lt _)).trans (bind_of_ok (r.facing.read_append rest)))
  rw [hread, UInt64.ofNat_toNat, UInt64.ofNat_toNat]

/-- A world is read back when its two sizes and the number of its cells have 64 bits. -/
theorem World.read_append {w : World} (hwidth : w.width < UInt64.size)
    (hheight : w.height < UInt64.size) (hcells : w.cells.size < UInt64.size) (rest : Bytes) :
    World.read (w.toBytes ++ rest) = .ok (w, rest) := by
  have hlength : w.cells.toList.length < UInt64.size := by
    simpa using hcells
  have hlist := list_append hlength fun c _ => Cell.read_append c
  rw [toBytes, List.append_assoc, List.append_assoc]
  exact (bind_of_ok (word_append hwidth _)).trans
    ((bind_of_ok (word_append hheight _)).trans (bind_of_ok (hlist rest)))

namespace Macros

/-- The lengths of a table and in it are numbers of 64 bits. -/
def Storable (m : Macros) : Prop :=
  m.entries.length < UInt64.size ∧
    ∀ e ∈ m.entries, e.1.utf8ByteSize < UInt64.size ∧ Block.ListStorable e.2

theorem readEntry_append {e : String × List Block} (hname : e.1.utf8ByteSize < UInt64.size)
    (hbody : Block.ListStorable e.2) (rest : Bytes) :
    readEntry (entryToBytes e ++ rest) = .ok (e, rest) := by
  rw [entryToBytes, List.append_assoc]
  exact (bind_of_ok (text_append hname _)).trans (bind_of_ok (Block.readList_append hbody rest))

theorem read_append {m : Macros} (h : m.Storable) (rest : Bytes) :
    Macros.read (m.toBytes ++ rest) = .ok (m, rest) := by
  obtain ⟨hlength, hentries⟩ := h
  have hlist := list_append hlength fun e he => readEntry_append (hentries e he).1 (hentries e he).2
  have hread : Macros.read (m.toBytes ++ rest) = .ok (ofList m.entries, rest) :=
    bind_of_ok (hlist rest)
  rw [hread, ofList_entries]

theorem yields_read : Yields Macros.read Storable := by
  have hentry : Yields readEntry fun e =>
      e.1.utf8ByteSize < UInt64.size ∧ Block.ListStorable e.2 :=
    yields_text.bind fun name hname => Block.yields_readList.bind fun body hbody =>
      yields_pure ⟨hname, hbody⟩
  refine (yields_list hentry).bind fun defs hdefs => yields_pure ?_
  obtain ⟨hlength, hmem⟩ := entries_ofList defs
  exact ⟨Nat.lt_of_le_of_lt hlength hdefs.1, fun e he => hdefs.2 e (hmem e he)⟩

end Macros

namespace Session

variable {s : Session}

/-- The lengths in the program and in the macros of a session are numbers of 64 bits, as the
lengths of all data in memory are. -/
structure Storable (s : Session) : Prop where
  program : Block.ListStorable s.program
  macros : s.macros.Storable

theorem read_append (hs : s.scene.Sound) (h : s.Storable) (rest : Bytes) :
    Session.read (s.toBytes ++ rest) = .ok ({ s with machine := .idle none }, rest) := by
  have hmax : World.maxCells < UInt64.size := by decide
  have hworld := World.read_append (Nat.lt_of_le_of_lt hs.valid.width_le hmax)
    (Nat.lt_of_le_of_lt hs.valid.height_le hmax)
    (Nat.lt_of_le_of_lt (hs.valid.size_eq ▸ hs.valid.size_le) hmax)
  simp only [toBytes, List.append_assoc]
  exact (bind_of_ok (hworld _)).trans ((bind_of_ok (s.scene.robot.read_append _)).trans
    ((bind_of_ok (Block.readList_append h.program _)).trans
      (bind_of_ok (Macros.read_append h.macros rest))))

/-- A session with a sound scene is read back, with an empty machine. -/
theorem ofBytes_toBytes_of_sound (hs : s.scene.Sound) (h : s.Storable) :
    ofBytes s.toBytes = .ok { s with machine := .idle none } := by
  have hread := read_append hs h []
  rw [List.append_nil] at hread
  rw [ofBytes, hread]
  exact (checked_eq_ok_iff _ _).2 ⟨rfl, hs.valid, hs.fits⟩

/-- What has been read from bytes can be written again. -/
theorem storable_of_ofBytes {bytes : Bytes} (h : ofBytes bytes = .ok s) : s.Storable := by
  unfold ofBytes at h
  split at h
  · rename_i t rest hread
    obtain ⟨rfl, _⟩ := (checked_eq_ok_iff _ _).1 h
    have hyields : Yields Session.read Storable :=
      (Yields.any World.read).bind fun world _ => (Yields.any Robot.read).bind fun robot _ =>
        Block.yields_readList.bind fun program hprogram => Macros.yields_read.bind
          fun macros hmacros => yields_pure ⟨hprogram, hmacros⟩
    exact hyields bytes s rest hread
  · cases h

theorem ofBytes_toBytes_of_made (hmade : s.Made) (h : s.Storable) : ofBytes s.toBytes = .ok s := by
  have hidle : { s with machine := .idle none } = s := by
    rw [← hmade.checked.2]
  rw [ofBytes_toBytes_of_sound hmade.sound h, hidle]

/-- **Binary round trip.**  Whatever has been done to a session, it is read back from its
bytes with the same scene, program and macros, and uncompiled.  A session that has been read
from bytes or from a text is read back as it is. -/
theorem binary_round_trip :
    (∀ s : Session, s.Reachable → s.Storable →
      ∃ t, ofBytes s.toBytes = .ok t ∧ t.scene = s.scene ∧ t.program = s.program ∧
        t.macros = s.macros ∧ t.machine.phase = .uncompiled ∧ t.machine.code? = none) ∧
    (∀ bytes s, ofBytes bytes = .ok s → ofBytes s.toBytes = .ok s) ∧
    ∀ text s, ofText text = .ok s → s.Storable → ofBytes s.toBytes = .ok s := by
  refine ⟨fun s hreach h => ?_, fun bytes s hread => ?_, fun text s hread h => ?_⟩
  · exact ⟨_, ofBytes_toBytes_of_sound hreach.sound h, rfl, rfl, rfl, rfl, rfl⟩
  · exact ofBytes_toBytes_of_made (.ofBytes hread) (storable_of_ofBytes hread)
  · exact ofBytes_toBytes_of_made (.ofText hread) h

/-- A session is written in the middle of a run.  Bytes with a width of two digits where one
is enough, and with macros out of order and defined twice, are read, and so is a text in the
short form. -/
theorem binary_round_trip_in_run :
    let first : Session :=
      ⟨⟨⟨0, 0, .east⟩, ⟨2, 1, #[.empty, .empty]⟩⟩, [], .empty, .idle none⟩
    let s := first.after
      [.setCell 1 0 (.beepers 4294967295), .define "vorwärts" [.act .move],
        .push (.choose .frontIsClear [.times 3 [.call "vorwärts"]] []), .compile, .step]
    let padded : Bytes :=
      [129, 0, 1, 1, 0, 0, 0, 1, 0, 3, 1, 98, 0, 1, 97, 0, 1, 98, 1, 0, 1]
    let bare : Session := ⟨⟨⟨0, 0, .east⟩, ⟨1, 1, #[.empty]⟩⟩, [], .empty, .idle none⟩
    let read : Session :=
      { bare with macros := .ofList [("a", []), ("b", [.act .pickUp])] }
    let text := "[[1,1,[\"Empty\"]],[0,0,\"East\"],[[]],[\x7b\x7d]]"
    (s.Reachable ∧ s.Storable ∧ s.machine.phase = .running ∧
      ∃ t, ofBytes s.toBytes = .ok t ∧ t.scene = s.scene ∧ t.program = s.program ∧
        t.macros = s.macros ∧ t.machine.phase = .uncompiled ∧ t.machine.code? = none) ∧
    (ofBytes padded = .ok read ∧ ofBytes read.toBytes = .ok read) ∧
    ofText text = .ok bare ∧ bare.Storable ∧ ofBytes bare.toBytes = .ok bare := by
  intro first s padded bare read text
  obtain ⟨hreachable, hbytes, htext⟩ := binary_round_trip
  have hnew : Session.new 2 1 = .ok first := by cbv
  have hreach : s.Reachable := (Reachable.made (.new hnew)).after _
  have hprogram : s.program = [.choose .frontIsClear [.times 3 [.call "vorwärts"]] []] := by
    unfold s first
    cbv
  have hentries : s.macros.entries = [("vorwärts", [.act .move])] := by
    unfold s first
    cbv
  have hphase : s.machine.phase = .running := by
    unfold s first
    cbv
  have hname : "vorwärts".utf8ByteSize < UInt64.size := by decide
  have hs : s.Storable := by
    refine ⟨?_, ?_⟩
    · have hcall : (Block.call "vorwärts").Storable := .call hname
      have htimes : (Block.times 3 [.call "vorwärts"]).Storable :=
        .times (by decide) (by simpa using hcall)
      have hchoose : (Block.choose .frontIsClear [.times 3 [.call "vorwärts"]] []).Storable :=
        .choose (by decide) (by simpa using htimes) (by decide) (by simp)
      rw [hprogram]
      exact ⟨by decide, by simpa using hchoose⟩
    · have hmove : (Block.act .move).Storable := .act
      unfold Macros.Storable
      rw [hentries]
      exact ⟨by decide, by simpa [Block.ListStorable] using ⟨hname, hmove⟩⟩
  have hpadded : ofBytes padded = .ok read := by
    unfold padded read bare
    cbv
  have hread : ofText text = .ok bare := by
    unfold text bare
    cbv
  have hbare : bare.Storable :=
    ⟨by simp [bare, Block.ListStorable], by simp [bare, Macros.Storable, Macros.empty]⟩
  exact ⟨⟨hreach, hs, hphase, hreachable s hreach hs⟩, ⟨hpadded, hbytes padded read hpadded⟩,
    hread, hbare, htext text bare hread hbare⟩

end Session

end GridRobot
