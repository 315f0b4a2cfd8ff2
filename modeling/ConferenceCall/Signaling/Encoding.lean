import ConferenceCall.Codec
import ConferenceCall.Library.Decimal
import ConferenceCall.Library.Machine
import ConferenceCall.Signaling.Command
import Mathlib.Tactic.Ring

/-! The texts of the commands and what `handleMessage` makes of them. A session description and a
candidate come back as they were sent, as long as the label fits an `int`; every other command
is ignored. -/

namespace ConferenceCall

open Library

/-- The callback a command raises where its text is received. -/
def Command.heard : Command → Option Incoming
  | .takeConfiguration streamId type sdp => some (.onRemoteSDP streamId type sdp)
  | .takeCandidate streamId candidate label mid =>
    some (.onRemoteCandidate streamId candidate mid (label.bmod (2 ^ 32)))
  | _ => none

/-- `sendTakeCandidate` with the label it uses up. -/
def takeCandidate : Step (String × String × String) SignalingCommand Command :=
  fun (streamId, cand, mid) c =>
    ({ c with candLabel := c.nextLabel }, [c.sendTakeCandidate streamId cand mid])

/-- The commands that carry no description and no candidate. -/
def SignalingCommand.others (c : SignalingCommand) (video audio : Bool) (targetStreamId : String) :
    List Command :=
  [c.sendPublish video audio, c.sendJoinRoom, c.sendPlayRoom, c.sendPlayStream targetStreamId,
    c.sendGetRoomInfo, c.sendStopPublish, c.sendStopPlayRoom, c.sendLeaveRoom]

namespace Codec

variable (codec : Codec)

/-- What `sendJson` sends. -/
def text (cmd : Command) : Bytes := codec.dump cmd.json

/-- What a received text leads to. -/
def hear (b : Bytes) : Option (Option Incoming) := (codec.parse b).bind handleMessage

end Codec

/-- A command is decoded by its fields, whatever their order is. -/
theorem handleMessage_json {cmd : Command} {j : Json} (h : cmd.json.Agrees j) :
    handleMessage j = some cmd.heard := by
  unfold handleMessage
  simp only [← h.contains, ← h.find?, ← h.value]
  cases cmd with
  | takeCandidate streamId candidate label mid =>
    cases hmid : mid.isEmpty with
    | true =>
      obtain rfl : mid = "" := by simpa using hmid
      rfl
    | false =>
      simp only [Command.json, hmid]
      rfl
  | _ => rfl

theorem hear_text {codec : Codec} {cmd : Command} (h : codec.Recovers cmd.json) :
    codec.hear (codec.text cmd) = some cmd.heard := by
  obtain ⟨j, hparse, hj⟩ := h
  rw [Codec.hear, Codec.text, hparse]
  exact handleMessage_json hj

/-- The candidates of a run are labelled one after the other, as an `int` counts. -/
theorem run_takeCandidate (cands : List (String × String × String)) (client : SignalingCommand)
    (h : client.candLabel.bmod (2 ^ 32) = client.candLabel) :
    (takeCandidate.run cands client).2 = cands.mapIdx fun i (streamId, cand, mid) =>
      .takeCandidate streamId cand ((client.candLabel + i).bmod (2 ^ 32)) mid := by
  induction cands generalizing client with
  | nil => rfl
  | cons cand cands ih =>
    have hlabel (i : ℕ) : (client.nextLabel + i).bmod (2 ^ 32) =
        (client.candLabel + (i + 1 : ℕ)).bmod (2 ^ 32) := by
      rw [SignalingCommand.nextLabel, Int.bmod_add_bmod]
      push_cast
      ring_nf
    rw [Step.run_cons, ih _ Int.bmod_bmod, List.mapIdx_cons]
    simp only [takeCandidate, SignalingCommand.sendTakeCandidate, hlabel, Nat.cast_zero, add_zero,
      h, List.singleton_append]

/-- A label that fits an `int` is decoded as it is. -/
theorem bmod_label {n : ℤ} (h : -2 ^ 31 ≤ n) (h' : n < 2 ^ 31) : n.bmod (2 ^ 32) = n := by
  rw [Int.bmod_eq_of_le] <;> omega

/-- Descriptions and candidates are heard as they were sent, the candidates of a run with labels
from 0 as long as these fit an `int`; the other commands lead to no callback. -/
theorem texts_heard (codec : Codec) (client : SignalingCommand) :
    (∀ streamId type sdp, codec.Recovers (client.sendTakeConfiguration streamId type sdp).json →
      codec.hear (codec.text (client.sendTakeConfiguration streamId type sdp)) =
        some (some (.onRemoteSDP streamId type sdp))) ∧
    (∀ streamId cand mid, -2 ^ 31 ≤ client.candLabel → client.candLabel < 2 ^ 31 →
      codec.Recovers (client.sendTakeCandidate streamId cand mid).json →
      codec.hear (codec.text (client.sendTakeCandidate streamId cand mid)) =
        some (some (.onRemoteCandidate streamId cand mid client.candLabel))) ∧
    (∀ cands, client.candLabel = 0 → cands.length ≤ 2 ^ 31 →
      (∀ cmd ∈ (takeCandidate.run cands client).2, codec.Recovers cmd.json) →
      (takeCandidate.run cands client).2.map (fun cmd => codec.hear (codec.text cmd)) =
        cands.mapIdx fun i (streamId, cand, mid) =>
          some (some (.onRemoteCandidate streamId cand mid i))) ∧
    ∀ video audio targetStreamId, ∀ cmd ∈ client.others video audio targetStreamId,
      codec.Recovers cmd.json → codec.hear (codec.text cmd) = some none := by
  refine ⟨fun streamId type sdp h => hear_text h, fun streamId cand mid hle hlt h => ?_,
    fun cands hzero hlength h => ?_, fun video audio targetStreamId cmd hcmd h => ?_⟩
  · rw [hear_text h, SignalingCommand.sendTakeCandidate, Command.heard, bmod_label hle hlt]
  · have hheard : (takeCandidate.run cands client).2.map (fun cmd => codec.hear (codec.text cmd)) =
        (takeCandidate.run cands client).2.map fun cmd => some cmd.heard :=
      List.map_congr_left fun cmd hcmd => hear_text (h cmd hcmd)
    rw [hheard, run_takeCandidate _ _ (by rw [hzero]; rfl)]
    refine List.ext_getElem (by simp) fun i hi _ => ?_
    have hlt : i < cands.length := by simpa using hi
    have hfits : (i : ℤ).bmod (2 ^ 32) = i := bmod_label (by omega) (by omega)
    have hlabel : ((client.candLabel + i).bmod (2 ^ 32)).bmod (2 ^ 32) = i := by
      rw [hzero, zero_add, hfits, hfits]
    rw [List.getElem_map, List.getElem_mapIdx, List.getElem_mapIdx, Command.heard, hlabel]
  · rw [hear_text h]
    simp only [SignalingCommand.others, List.mem_cons, List.not_mem_nil, or_false] at hcmd
    rcases hcmd with rfl | rfl | rfl | rfl | rfl | rfl | rfl | rfl <;> rfl

/-! ### The texts of some candidates -/

/-- A candidate with a label. -/
def labelled (n : ℤ) : Command := .takeCandidate "s" "c" n ""

/-- What precedes the label. -/
def beforeLabel : List Char :=
  "\x7b\"candidate\":\"c\",\"command\":\"takeCandidate\",\"label\":".toList

/-- The text of a value with a label, and what is read back from such a text. -/
def candidateCodec : Codec where
  dump j := match j.find? "label" with
    | some (.number n) =>
      utf8 (String.ofList (beforeLabel ++ (Decimal.print 0 n ++ ",\"streamId\":\"s\"\x7d".toList)))
    | _ => []
  parse b := do
    let t ← ofUtf8 b
    let (n, _) ← Decimal.scan (t.toList.drop beforeLabel.length)
    return (labelled n).json

theorem candidateCodec_recovers (n : ℤ) : candidateCodec.Recovers (labelled n).json := by
  refine ⟨(labelled n).json, ?_, _, _, rfl, rfl, fun _ => rfl⟩
  have hends : Decimal.endsNumber ",\"streamId\":\"s\"\x7d".toList := Decimal.endsNumber_cons rfl
  have hdump : candidateCodec.dump (labelled n).json = utf8 (String.ofList
      (beforeLabel ++ (Decimal.print 0 n ++ ",\"streamId\":\"s\"\x7d".toList))) := rfl
  rw [hdump]
  simp only [candidateCodec, ofUtf8_eq_some.mpr rfl, Option.bind_eq_bind, Option.bind_some,
    String.toList_ofList, List.drop_left,
    Decimal.scan_print 0 n hends]
  rfl

theorem recovers_of_run (cands : List (String × String × String))
    (h : ∀ cand ∈ cands, cand = ("s", "c", "")) :
    ∀ cmd ∈ (takeCandidate.run cands ⟨"s", "r", 0⟩).2, candidateCodec.Recovers cmd.json := by
  intro cmd hcmd
  rw [run_takeCandidate _ _ rfl] at hcmd
  obtain ⟨i, hi, rfl⟩ := List.mem_mapIdx.mp hcmd
  rw [h _ (List.getElem_mem hi)]
  exact candidateCodec_recovers _

/-- Two candidates. -/
theorem two_candidates_heard :
    (takeCandidate.run [("s", "c", ""), ("s", "c", "")] ⟨"s", "r", 0⟩).2.map
        (fun cmd => candidateCodec.hear (candidateCodec.text cmd)) =
      [some (some (.onRemoteCandidate "s" "c" "" 0)), some (some (.onRemoteCandidate "s" "c" "" 1))] := by
  exact (texts_heard candidateCodec ⟨"s", "r", 0⟩).2.2.1 _ rfl (by decide)
    (recovers_of_run _ (by simp))

/-- After `2 ^ 31` candidates the label is negative. -/
theorem labels_wrap : ¬ ∀ (codec : Codec) (client : SignalingCommand)
    (cands : List (String × String × String)), client.candLabel = 0 →
    (∀ cmd ∈ (takeCandidate.run cands client).2, codec.Recovers cmd.json) →
    (takeCandidate.run cands client).2.map (fun cmd => codec.hear (codec.text cmd)) =
      cands.mapIdx fun i (streamId, cand, mid) =>
        some (some (.onRemoteCandidate streamId cand mid i)) := by
  intro h
  obtain ⟨n, hn⟩ : ∃ n : ℕ, n = 2 ^ 31 := ⟨_, rfl⟩
  let cands := List.replicate (n + 1) ("s", "c", "")
  have hcands : ∀ cand ∈ cands, cand = ("s", "c", "") := fun _ hc => List.eq_of_mem_replicate hc
  have hrun := h candidateCodec ⟨"s", "r", 0⟩ cands rfl (recovers_of_run cands hcands)
  have hheard : (takeCandidate.run cands ⟨"s", "r", 0⟩).2.map (fun cmd =>
      candidateCodec.hear (candidateCodec.text cmd)) =
        (takeCandidate.run cands ⟨"s", "r", 0⟩).2.map fun cmd => some cmd.heard :=
    List.map_congr_left fun cmd hcmd => hear_text (recovers_of_run cands hcands cmd hcmd)
  rw [hheard, run_takeCandidate _ _ rfl] at hrun
  have hlast := congrArg (fun l => l[n]?) hrun
  have hget : cands[n]? = some ("s", "c", "") := by simp [cands]
  simp only [List.getElem?_map, List.getElem?_mapIdx, hget, Option.map_some, Command.heard,
    Option.some.injEq, Incoming.onRemoteCandidate.injEq, zero_add, true_and] at hlast
  rw [hn] at hlast
  exact absurd hlast (by decide)

end ConferenceCall
