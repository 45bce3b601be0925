import FirebaseSwift.Storage.MetadataUpdates
import Mathlib.Algebra.BigOperators.Group.List.Basic
import Mathlib.Algebra.GroupWithZero.Nat
import Mathlib.Algebra.Order.Group.Nat

/-! Uploading in chunks. The body is sent from offset zero on, in chunks of one size that the server may ask to be
a multiple of its granularity, and the last chunk finalizes the upload. The offsets count from zero, and so the
body is sent exactly if its indices do too, or if there is nothing to send. -/

namespace FirebaseSwift.Storage

/-- A `Data`. The indices of a slice do not start at zero. -/
structure UploadBody where
  startIndex : Nat
  bytes : List UInt8

/-- `subdata(in:)`, which traps for indices that are out of bounds, except where there is nothing to copy -/
def UploadBody.subdata (body : UploadBody) (lower upper : Nat) : Option (List UInt8) :=
  if body.bytes = [] ∨ upper = lower then some []
  else if lower < body.startIndex ∨ body.startIndex + body.bytes.length < upper then none
  else some ((body.bytes.drop (lower - body.startIndex)).take (upper - lower))

/-- The response to the request that starts an upload -/
structure StartResponse where
  statusCode : Nat
  uploadURL : Option String
  granularity : Option String
  data : List UInt8

structure ChunkResponse where
  statusCode : Nat
  uploadStatus : Option String
  data : List UInt8
deriving DecidableEq

structure ChunkRequest where
  command : String
  offset : String
  body : List UInt8
deriving DecidableEq

inductive UploadOutcome where
  | finished (data : List UInt8)
  | statusError (code : Nat) (data : List UInt8)
  | trapped
deriving DecidableEq

namespace GTMSessionUploadFetcher

/-- The granularity that a server asks for, if it is a positive number -/
def granularityOf (header : Option String) : Option Int := (header.bind StorageMetadata.int64).filter (0 < ·)

/-- The size of the chunks, a positive multiple of the granularity -/
def chunkSizeFor (chunkSize : Int) (header : Option String) : Int :=
  match granularityOf header with
  | some granularity => max granularity (max chunkSize 1 - max chunkSize 1 % granularity)
  | none => max chunkSize 1

variable {header : Option String} {body : UploadBody}

theorem granularity_pos {granularity : Int} (h : granularityOf header = some granularity) :
    0 < granularity := of_decide_eq_true (Option.mem_filter_iff.mp h).2

theorem chunkSizeFor_pos (chunkSize : Int) (header : Option String) : 0 < chunkSizeFor chunkSize header := by
  rw [chunkSizeFor]
  cases hgranularity : granularityOf header with
  | none => exact lt_of_lt_of_le Int.one_pos (le_max_right _ _)
  | some granularity => exact lt_of_lt_of_le (granularity_pos hgranularity) (le_max_left _ _)

theorem dvd_chunkSizeFor {granularity : Int} (h : granularityOf header = some granularity) (chunkSize : Int) :
    granularity ∣ chunkSizeFor chunkSize header := by
  rw [chunkSizeFor, h]
  dsimp only
  rcases max_choice granularity (max chunkSize 1 - max chunkSize 1 % granularity) with hmax | hmax
  · rw [hmax]
  · rw [hmax]
    exact Int.dvd_self_sub_emod

/-- The size of chunks, which is positive -/
abbrev ChunkSize := { size : Nat // 0 < size }

def sizeOfChunks (chunkSize : Int) (header : Option String) : ChunkSize :=
  ⟨(chunkSizeFor chunkSize header).toNat, Int.lt_toNat.mpr (chunkSizeFor_pos chunkSize header)⟩

/-- The loop over the chunks, from an offset on, with what the server responds to each chunk -/
def sendChunks (body : UploadBody) (chunkSize : ChunkSize) (respond : Nat → ChunkResponse) (number offset : Nat)
    (hoffset : offset ≤ body.bytes.length) : List ChunkRequest × UploadOutcome :=
  let length := min chunkSize.1 (body.bytes.length - offset)
  match body.subdata offset (offset + length) with
  | none => ([], .trapped)
  | some chunk =>
      let command := if offset + length = body.bytes.length then "upload, finalize" else "upload"
      let request : ChunkRequest := { command, offset := toString offset, body := chunk }
      let response := respond number
      if response.statusCode ≥ 400 then ([request], .statusError response.statusCode response.data)
      else if offset + length = body.bytes.length then ([request], .finished response.data)
      else if response.uploadStatus = some "active" then
        let rest := sendChunks body chunkSize respond (number + 1) (offset + length) (by omega)
        (request :: rest.1, rest.2)
      else ([request], .statusError response.statusCode response.data)
termination_by body.bytes.length - offset
decreasing_by
  have _ := chunkSize.2
  omega

/-- `beginFetch`, from the response to the request that starts the upload on -/
def beginFetch (body : UploadBody) (chunkSize : Int) (start : StartResponse) (respond : Nat → ChunkResponse) :
    List ChunkRequest × UploadOutcome :=
  if start.statusCode ≥ 400 ∨ start.uploadURL = none then ([], .statusError start.statusCode start.data)
  else sendChunks body (sizeOfChunks chunkSize start.granularity) respond 0 0 (Nat.zero_le _)

/-- Every response is successful, and active unless it is the one to the last chunk. -/
structure Accepts (body : UploadBody) (chunkSize : Int) (start : StartResponse) (respond : Nat → ChunkResponse) : Prop where
  started : start.statusCode < 400 ∧ start.uploadURL ≠ none
  successful : ∀ number, (respond number).statusCode < 400
  active : ∀ number, (number + 1) * (sizeOfChunks chunkSize start.granularity).1 < body.bytes.length →
    (respond number).uploadStatus = some "active"

/-- The requests send the body in order, from an offset on, and only the last one finalizes. -/
structure Sends (bytes : List UInt8) (granularity : Option Int) (offset : Nat) (requests : List ChunkRequest) : Prop where
  body : (requests.map ChunkRequest.body).flatten = bytes
  nonempty : requests ≠ []
  each : ∀ before request after, requests = before ++ request :: after →
    request.offset = toString (offset + (before.map fun request => request.body.length).sum) ∧
      request.command = (if after = [] then "upload, finalize" else "upload") ∧
      (after ≠ [] → 0 < request.body.length ∧ ∀ size ∈ granularity, size ∣ (request.body.length : Int))

theorem Sends.last {granularity : Option Int} {offset : Nat} {request : ChunkRequest}
    (hoffset : request.offset = toString offset) (hcommand : request.command = "upload, finalize") :
    Sends request.body granularity offset [request] where
  body := by rw [List.map_singleton, List.flatten_singleton]
  nonempty := List.cons_ne_nil _ _
  each := by
    intro before request' after heq
    cases before with
    | nil =>
        obtain ⟨rfl, rfl⟩ := List.cons.inj heq
        exact ⟨hoffset, hcommand, fun hne => absurd rfl hne⟩
    | cons first before =>
        exact absurd (List.cons.inj heq).2.symm (List.append_ne_nil_of_right_ne_nil _ (List.cons_ne_nil _ _))

theorem Sends.cons {bytes : List UInt8} {granularity : Option Int} {offset : Nat} {request : ChunkRequest}
    {requests : List ChunkRequest} (h : Sends bytes granularity (offset + request.body.length) requests)
    (hoffset : request.offset = toString offset) (hcommand : request.command = "upload")
    (hpos : 0 < request.body.length) (hdvd : ∀ size ∈ granularity, size ∣ (request.body.length : Int)) :
    Sends (request.body ++ bytes) granularity offset (request :: requests) where
  body := by rw [List.map_cons, List.flatten_cons, h.body]
  nonempty := List.cons_ne_nil _ _
  each := by
    intro before request' after heq
    cases before with
    | nil =>
        obtain ⟨rfl, rfl⟩ := List.cons.inj heq
        exact ⟨hoffset, by rw [if_neg h.nonempty, hcommand], fun _ => ⟨hpos, hdvd⟩⟩
    | cons first before =>
        obtain ⟨rfl, hrest⟩ := List.cons.inj heq
        obtain ⟨hrequest, hcommand', hsize⟩ := h.each before request' after hrest
        refine ⟨?_, hcommand', hsize⟩
        rw [hrequest, List.map_cons, List.sum_cons, Nat.add_assoc]

/-- What a chunk holds if indices count from zero, or nothing is sent -/
theorem subdata_of_indexed (h : body.startIndex = 0 ∨ body.bytes = []) {offset length : Nat}
    (hlength : offset + length ≤ body.bytes.length) :
    body.subdata offset (offset + length) = some ((body.bytes.drop offset).take length) := by
  rw [UploadBody.subdata]
  by_cases hempty : body.bytes = []
  · rw [if_pos (.inl hempty), hempty, List.drop_nil, List.take_nil]
  · have hstart := h.resolve_right hempty
    by_cases hnone : length = 0
    · rw [if_pos (.inr (by omega)), hnone, List.take_zero]
    · rw [if_neg (by rintro (h | h); exacts [hempty h, by omega]), if_neg (by omega), hstart, Nat.sub_zero,
        Nat.add_sub_cancel_left]

/-- From every offset on the rest of the body is sent. -/
theorem sends_sendChunks (h : body.startIndex = 0 ∨ body.bytes = []) (chunkSize : ChunkSize)
    {respond : Nat → ChunkResponse} {granularity : Option Int}
    (hdvd : ∀ size ∈ granularity, size ∣ (chunkSize.1 : Int))
    (hsuccessful : ∀ number, (respond number).statusCode < 400)
    (hactive : ∀ number, (number + 1) * chunkSize.1 < body.bytes.length → (respond number).uploadStatus = some "active")
    (number offset : Nat) (hoffset : offset ≤ body.bytes.length)
    (hnumber : offset = number * chunkSize.1 ∨ offset = body.bytes.length) :
    Sends (body.bytes.drop offset) granularity offset (sendChunks body chunkSize respond number offset hoffset).1 ∧
      ∃ data, (sendChunks body chunkSize respond number offset hoffset).2 = .finished data := by
  induction hleft : body.bytes.length - offset using Nat.strong_induction_on generalizing number offset with
  | _ left ih =>
      have hsubdata := @subdata_of_indexed body h offset (min chunkSize.1 (body.bytes.length - offset)) (by omega)
      have hchunk : ((body.bytes.drop offset).take (min chunkSize.1 (body.bytes.length - offset))).length =
          min chunkSize.1 (body.bytes.length - offset) := by
        rw [List.length_take, List.length_drop]
        omega
      rw [sendChunks]
      dsimp only
      rw [hsubdata]
      dsimp only
      rw [if_neg (Nat.not_le.mpr (hsuccessful number))]
      by_cases hlast : offset + min chunkSize.1 (body.bytes.length - offset) = body.bytes.length
      · have hall : (body.bytes.drop offset).take (min chunkSize.1 (body.bytes.length - offset)) =
            body.bytes.drop offset := by
          apply List.take_of_length_le
          rw [List.length_drop]
          omega
        rw [if_pos hlast, if_pos hlast, hall]
        exact ⟨@Sends.last granularity offset ⟨"upload, finalize", toString offset, body.bytes.drop offset⟩ rfl rfl, _, rfl⟩
      · have hpos := chunkSize.2
        have hfull : min chunkSize.1 (body.bytes.length - offset) = chunkSize.1 := by omega
        have hthis : offset = number * chunkSize.1 := hnumber.resolve_right (by omega)
        have hnext : offset + chunkSize.1 = (number + 1) * chunkSize.1 := by rw [hthis, Nat.succ_mul]
        rw [if_neg hlast, if_neg hlast, if_pos (hactive number (by omega))]
        obtain ⟨hsends, data, hdata⟩ := ih _ (by omega) (number + 1)
          (offset + min chunkSize.1 (body.bytes.length - offset)) (by omega) (.inl (by omega)) rfl
        refine ⟨?_, data, hdata⟩
        have hsplit : (body.bytes.drop offset).take (min chunkSize.1 (body.bytes.length - offset)) ++
            body.bytes.drop (offset + min chunkSize.1 (body.bytes.length - offset)) = body.bytes.drop offset := by
          rw [← List.drop_drop, List.take_append_drop]
        have hcons := @Sends.cons _ granularity offset
          ⟨"upload", toString offset, (body.bytes.drop offset).take (min chunkSize.1 (body.bytes.length - offset))⟩ _
          (by rw [hchunk]; exact hsends) rfl rfl (by rw [hchunk, hfull]; exact hpos) (by rw [hchunk, hfull]; exact hdvd)
        rw [hsplit] at hcons
        exact hcons

/-- The first chunk of a slice that is not empty is out of bounds. -/
theorem trapped_of_slice (hstart : body.startIndex ≠ 0) (hne : body.bytes ≠ []) (chunkSize : ChunkSize)
    (respond : Nat → ChunkResponse) (number : Nat) :
    sendChunks body chunkSize respond number 0 (Nat.zero_le _) = ([], .trapped) := by
  have hlength := List.length_pos_iff.mpr hne
  have hpos := chunkSize.2
  have hnone : body.subdata 0 (0 + min chunkSize.1 (body.bytes.length - 0)) = none := by
    rw [UploadBody.subdata, if_neg (by rintro (h | h); exacts [hne h, by omega]), if_pos (.inl (by omega))]
  rw [sendChunks]
  dsimp only
  rw [hnone]

/-- If the server accepts everything, the body is uploaded exactly if its indices count from zero or it is empty. -/
theorem beginFetch_sends_iff (body : UploadBody) (chunkSize : Int) (start : StartResponse)
    (respond : Nat → ChunkResponse) (haccepts : Accepts body chunkSize start respond) :
    (Sends body.bytes (granularityOf start.granularity) 0 (beginFetch body chunkSize start respond).1 ∧
        ∃ data, (beginFetch body chunkSize start respond).2 = .finished data) ↔
      body.startIndex = 0 ∨ body.bytes = [] := by
  have hstarted := haccepts.started
  rw [beginFetch, if_neg (by rintro (h | h); exacts [absurd hstarted.1 (Nat.not_lt.mpr h), hstarted.2 h])]
  constructor
  · rintro ⟨-, data, hdata⟩
    by_contra hnot
    obtain ⟨hstart, hne⟩ := not_or.mp hnot
    rw [trapped_of_slice hstart hne] at hdata
    cases hdata
  · intro h
    have hdvd : ∀ size ∈ granularityOf start.granularity,
        size ∣ ((sizeOfChunks chunkSize start.granularity).1 : Int) := by
      intro size hsize
      have hcast : ((sizeOfChunks chunkSize start.granularity).1 : Int) = chunkSizeFor chunkSize start.granularity :=
        Int.toNat_of_nonneg (chunkSizeFor_pos chunkSize start.granularity).le
      rw [hcast]
      exact dvd_chunkSizeFor hsize chunkSize
    exact sends_sendChunks h (sizeOfChunks chunkSize start.granularity) hdvd haccepts.successful haccepts.active 0 0
      (Nat.zero_le _) (.inl (Nat.zero_mul _).symm)

/-- A server that asks for no granularity and accepts every chunk -/
def acceptingStart : StartResponse := { statusCode := 200, uploadURL := some "https://upload/", granularity := none, data := [] }

def acceptingResponse : ChunkResponse := { statusCode := 200, uploadStatus := some "active", data := [] }

theorem accepts_all (body : UploadBody) (chunkSize : Int) :
    Accepts body chunkSize acceptingStart fun _ => acceptingResponse where
  started := by decide
  successful := fun _ => by decide
  active := fun _ _ => rfl

theorem beginFetch_sends_iff_slice :
    (Sends [1] none 0 (beginFetch ⟨1, [1]⟩ 5 acceptingStart fun _ => acceptingResponse).1 ∧
        ∃ data, (beginFetch ⟨1, [1]⟩ 5 acceptingStart fun _ => acceptingResponse).2 = .finished data) ↔
      1 = 0 ∨ ([1] : List UInt8) = [] :=
  beginFetch_sends_iff ⟨1, [1]⟩ 5 acceptingStart (fun _ => acceptingResponse) (accepts_all _ _)

/-- A slice of one byte that starts at index one traps. -/
theorem slice_traps : ¬∀ (body : UploadBody) (chunkSize : Int) (start : StartResponse) (respond : Nat → ChunkResponse),
    Accepts body chunkSize start respond →
      Sends body.bytes (granularityOf start.granularity) 0 (beginFetch body chunkSize start respond).1 ∧
        ∃ data, (beginFetch body chunkSize start respond).2 = .finished data := by
  intro hall
  obtain ⟨-, data, hdata⟩ := hall ⟨1, [1]⟩ 5 acceptingStart (fun _ => acceptingResponse) (accepts_all _ _)
  have htrapped : beginFetch ⟨1, [1]⟩ 5 acceptingStart (fun _ => acceptingResponse) = ([], .trapped) := by
    rw [beginFetch, if_neg (by decide)]
    exact trapped_of_slice (by decide) (by decide) _ _ _
  rw [htrapped] at hdata
  cases hdata

end GTMSessionUploadFetcher

end FirebaseSwift.Storage
