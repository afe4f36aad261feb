import GridRobot.Proofs.Binary.Prefixes
import GridRobot.Proofs.Json.Prefixes
import GridRobot.Proofs.Session.BinaryRoundTrip

/-!
# Truncated sessions are refused

What has been saved of a session may have been cut off, or something else may have come to
stand behind it.  In the binary form a session is read from the front, so all but the whole of
its bytes end too early, while bytes behind them are not looked at.  The text of a session is
one object, which is over with its last brace: no other front part of the text is a document,
and behind the text only blanks may stand.

**Results.**
* `Session.foretells_read`: a session is read from more bytes as from less, where they suffice.
* `Session.truncation_refused`: no session is read from a front part of what has been saved.
-/

namespace GridRobot

open Reader

/-! ### The readers of the parts -/

theorem Cell.foretells_read : Foretells Cell.read Cell.read := by
  refine foretells_form.bind fun n => ?_
  split
  case h_3 => exact foretells_short.bind fun n => foretells_pure _
  case h_4 => exact foretells_throw _
  all_goals exact foretells_pure _

theorem World.foretells_read : Foretells World.read World.read :=
  foretells_word.bind fun _ => foretells_word.bind fun _ =>
    Cell.foretells_read.list.bind fun _ => foretells_pure _

theorem Robot.foretells_read : Foretells Robot.read Robot.read :=
  foretells_word.bind fun _ => foretells_word.bind fun _ =>
    (foretells_variant _).bind fun _ => foretells_pure _

theorem Macros.foretells_readEntry : Foretells readEntry readEntry :=
  foretells_text.bind fun _ => Block.foretells_readList.bind fun _ => foretells_pure _

theorem Macros.foretells_read : Foretells Macros.read Macros.read :=
  foretells_readEntry.list.bind fun _ => foretells_pure _

namespace Session

variable {s : Session}

theorem foretells_read : Foretells Session.read Session.read :=
  World.foretells_read.bind fun _ => Robot.foretells_read.bind fun _ =>
    Block.foretells_readList.bind fun _ => Macros.foretells_read.bind fun _ => foretells_pure _

/-! ### Cut bytes and cut texts -/

/-- The bytes of a session without the last ones end too early. -/
theorem ofBytes_of_prefix (hs : s.scene.Sound) (h : s.Storable) {front : Bytes}
    (hfront : front <+: s.toBytes) (hne : front ≠ s.toBytes) :
    ofBytes front = .error (.binary .endOfData) := by
  have hread := read_append hs h []
  rw [List.append_nil] at hread
  rw [ofBytes, foretells_read.endOfData_of_prefix hread hfront hne]

/-- Bytes behind those of a session are not looked at. -/
theorem ofBytes_toBytes_append (hs : s.scene.Sound) (h : s.Storable) (extra : Bytes) :
    ofBytes (s.toBytes ++ extra) = .ok { s with machine := .idle none } := by
  rw [ofBytes, read_append hs h extra]
  exact (checked_eq_ok_iff _ _).2 ⟨rfl, hs.valid, hs.fits⟩

/-- The text of a session without its end is no document. -/
theorem ofText_of_prefix {front : String} (hfront : front.toList <+: s.toText.toList)
    (hne : front ≠ s.toText) : ofText front = .error .json := by
  have hread : Json.read? front.toList = none :=
    Json.read?_eq_none_of_prefix hfront fun heq => hne (String.toList_inj.1 heq)
  rw [ofText, hread]
  rfl

/-- Blanks behind the text of a session make no difference, and nothing else may stand there. -/
theorem ofText_toText_append (s : Session) (extra : String) :
    ofText (s.toText ++ extra)
      = if extra.toList.all Token.isBlank then ofText s.toText else .error .json := by
  have hread : Json.read? (s.toText ++ extra).toList
      = if extra.toList.all Token.isBlank then some s.toJson else none := by
    rw [String.toList_append]
    exact Json.read?_text_append _ extra.toList
  by_cases hblank : extra.toList.all Token.isBlank = true
  · rw [if_pos hblank] at hread ⊢
    rw [ofText, ofText, hread, toText, Json.read?_text]
  · rw [if_neg hblank] at hread ⊢
    rw [ofText, hread]
    rfl

/-- **A truncated session is never accepted.**  Whatever has been done to a session, its bytes
without the last ones end too early, and its text without its end is no document.  More bytes
behind its bytes change nothing, and behind its text nothing but blanks may stand. -/
theorem truncation_refused (h : s.Reachable) :
    (s.Storable →
      (∀ front, front <+: s.toBytes → front ≠ s.toBytes →
        ofBytes front = .error (.binary .endOfData)) ∧
      ∃ t, ofBytes s.toBytes = .ok t ∧ ∀ extra, ofBytes (s.toBytes ++ extra) = .ok t) ∧
    (∀ front : String, front.toList <+: s.toText.toList → front ≠ s.toText →
      ofText front = .error .json) ∧
    ∀ extra : String, ofText (s.toText ++ extra)
      = if extra.toList.all Token.isBlank then ofText s.toText else .error .json := by
  refine ⟨fun hs => ⟨?_, ?_⟩, ?_, ofText_toText_append s⟩
  · intro front hfront hne
    exact ofBytes_of_prefix h.sound hs hfront hne
  · exact ⟨_, ofBytes_toBytes_of_sound h.sound hs, ofBytes_toBytes_append h.sound hs⟩
  · intro front hfront hne
    exact ofText_of_prefix hfront hne

/-- A session is saved in the middle of a run.  Its bytes are cut in a character of two bytes and
its text lacks the last brace, or something comes to stand behind them. -/
theorem truncation_refused_in_run :
    let first : Session :=
      ⟨⟨⟨0, 0, .east⟩, ⟨12, 1, .replicate 12 .empty⟩⟩, [], .empty, .idle none⟩
    let s := first.after
      [.define "vorwärts" [.act .move], .push (.times 3 [.call "vorwärts"]), .compile, .step]
    let bytes := s.toBytes.take 29
    let text := String.ofList s.toText.toList.dropLast
    (s.Reachable ∧ s.Storable) ∧
      (bytes <+: s.toBytes ∧ bytes ≠ s.toBytes ∧ ofBytes bytes = .error (.binary .endOfData)) ∧
      (∃ t, ofBytes s.toBytes = .ok t ∧ ofBytes (s.toBytes ++ [128]) = .ok t) ∧
      (text.toList <+: s.toText.toList ∧ text ≠ s.toText ∧ ofText text = .error .json) ∧
      ofText (s.toText ++ "\n") = ofText s.toText ∧ ofText (s.toText ++ "\n]") = .error .json := by
  intro first s bytes text
  have hnew : Session.new 12 1 = .ok first := by cbv
  have hreach : s.Reachable := (Reachable.made (.new hnew)).after _
  have hprogram : s.program = [.times 3 [.call "vorwärts"]] := by
    unfold s first
    cbv
  have hentries : s.macros.entries = [("vorwärts", [.act .move])] := by
    unfold s first
    cbv
  have hname : "vorwärts".utf8ByteSize < UInt64.size := by decide
  have hs : s.Storable := by
    have hcall : (Block.call "vorwärts").Storable := .call hname
    have htimes : (Block.times 3 [.call "vorwärts"]).Storable :=
      .times (by decide) (by simpa using hcall)
    have hmove : (Block.act .move).Storable := .act
    refine ⟨?_, ?_⟩
    · rw [hprogram]
      exact ⟨by decide, by simpa using htimes⟩
    · unfold Macros.Storable
      rw [hentries]
      exact ⟨by decide, by simpa [Block.ListStorable] using ⟨hname, hmove⟩⟩
  have hlength : s.toBytes.length = 47 := by
    unfold s first
    cbv
  -- Nothing else depends on what the session is.
  clear_value s
  have hbytes : bytes <+: s.toBytes := List.take_prefix 29 s.toBytes
  have hcut : bytes ≠ s.toBytes := by
    intro heq
    have htake := congrArg List.length heq
    rw [List.length_take, hlength] at htake
    cases htake
  have hchars : text.toList = s.toText.toList.dropLast := String.toList_ofList
  have htext : text.toList <+: s.toText.toList := by
    rw [hchars]
    exact List.dropLast_prefix _
  have hshort : text ≠ s.toText := by
    obtain ⟨inner, hinner⟩ : ∃ inner, s.toText.toList = '{' :: inner ++ ['}'] :=
      Json.exists_text_object _
    intro heq
    have hlengths := congrArg List.length hchars
    rw [heq, hinner, List.dropLast_concat, List.length_append] at hlengths
    exact absurd hlengths (Nat.succ_ne_self _)
  obtain ⟨hbinary, hjson, hextra⟩ := truncation_refused hreach
  obtain ⟨hfront, t, ht, hbehind⟩ := hbinary hs
  have hblank := hextra "\n"
  have hbracket := hextra "\n]"
  rw [if_pos (by decide)] at hblank
  rw [if_neg (by decide)] at hbracket
  exact ⟨⟨hreach, hs⟩, ⟨hbytes, hcut, hfront bytes hbytes hcut⟩, ⟨t, ht, hbehind [128]⟩,
    ⟨htext, hshort, hjson text htext hshort⟩, hblank, hbracket⟩

end Session

end GridRobot
