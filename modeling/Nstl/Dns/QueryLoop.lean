import Nstl.Core.Transition
import Nstl.Dns.Client

/-!
# The loop of a query

`_process_item` asks again with a larger buffer until the answer fits.  Here its loop is
taken apart: one step for every `res_nquery`, one for leaving the loop, and nothing that
says how many there are.  The buffer belongs to the client and keeps its size from one
call to the next.

That the loop ends rests on the size of a message: it is a 16-bit number, so that a
buffer of 65536 bytes has room for every answer.
-/

namespace Nstl.DnsQueryLoop

open Nstl.ByteString
open Nstl.DnsMessage
open Nstl.DnsQuery
open Nstl.Transition (Run)

/-- Where `_process_item` stands: not in a call, before the test of `length`, or before
`ns_initparse`. -/
inductive Point where
  | idle
  | test (length : ℤ)
  | initparse (length : ℤ)
  deriving DecidableEq

structure Loop where
  response : Bytes
  point : Point

def Loop.fresh : Loop := ⟨DnsClient.fresh.response, .idle⟩

/-- The body of the loop. -/
def iteration (response : Bytes) (result : QueryResult) : Loop :=
  let response := store response result.packet
  if result.length ≤ 0 then ⟨response, .idle⟩
  else if response.length ≤ result.length.toNat then
    ⟨resize response (result.length.toNat + 1), .test (-1)⟩
  else ⟨response, .test result.length⟩

inductive Event where
  | call
  | query (result : QueryResult)
  | leave
  | finish

inductive Step : Loop → Event → Loop → Prop
  | call {response} : Step ⟨response, .idle⟩ .call ⟨response, .test (-1)⟩
  | query {response length} (result : QueryResult) (hlength : length < 0) :
      Step ⟨response, .test length⟩ (.query result) (iteration response result)
  | leave {response length} (hlength : ¬length < 0) :
      Step ⟨response, .test length⟩ .leave ⟨response, .initparse length⟩
  -- the answers are read from the buffer, which stays as it is
  | finish {response length} : Step ⟨response, .initparse length⟩ .finish ⟨response, .idle⟩

/-! ## The size of the buffer -/

@[simp]
theorem length_store (buffer packet : Bytes) : (store buffer packet).length = buffer.length := by
  simp only [store, List.length_append, List.length_take, List.length_drop]
  omega

/-- A message that fits can be read back. -/
theorem take_store {buffer packet : Bytes} (hfits : packet.length ≤ buffer.length) :
    (store buffer packet).take packet.length = packet := by
  rw [store, List.take_of_length_le hfits, List.take_left]

section Iteration

variable (response : Bytes) {result : QueryResult}

/-- No answer. -/
theorem iteration_of_nonpos (hnone : result.length ≤ 0) :
    iteration response result = ⟨store response result.packet, .idle⟩ := by
  rw [iteration, if_pos hnone]

variable {response}

/-- An answer that is too long. -/
theorem iteration_of_long (hpos : 0 < result.length)
    (hlong : response.length ≤ result.length.toNat) :
    iteration response result =
      ⟨resize (store response result.packet) (result.length.toNat + 1), .test (-1)⟩ := by
  rw [iteration, if_neg (Int.not_le.2 hpos), length_store, if_pos hlong]

/-- An answer that fits. -/
theorem iteration_of_fits (hpos : 0 < result.length) (hfits : result.length < response.length) :
    iteration response result = ⟨store response result.packet, .test result.length⟩ := by
  rw [iteration, if_neg (Int.not_le.2 hpos), length_store, if_neg (by omega)]

variable (response result)

theorem iteration_cases :
    (result.length ≤ 0 ∧
      iteration response result = ⟨store response result.packet, .idle⟩) ∨
    (0 < result.length ∧ response.length ≤ result.length.toNat ∧
      iteration response result =
        ⟨resize (store response result.packet) (result.length.toNat + 1), .test (-1)⟩) ∨
    (0 < result.length ∧ result.length < response.length ∧
      iteration response result = ⟨store response result.packet, .test result.length⟩) := by
  by_cases hpos : 0 < result.length
  · right
    by_cases hfits : result.length < response.length
    · exact Or.inr ⟨hpos, hfits, iteration_of_fits hpos hfits⟩
    · have hlong : response.length ≤ result.length.toNat := by omega
      exact Or.inl ⟨hpos, hlong, iteration_of_long hpos hlong⟩
  · left
    exact ⟨Int.not_lt.1 hpos, iteration_of_nonpos response (Int.not_lt.1 hpos)⟩

end Iteration

/-- A length that is not negative belongs to a message in a buffer of the given size. -/
def Point.Fits (size : ℕ) : Point → Prop
  | .idle => True
  | .test length => length < 0 ∨ (0 < length ∧ length < size)
  | .initparse length => 0 < length ∧ length < size

/-- The buffer never has to be larger than the longest message and one byte. -/
structure Sized (loop : Loop) : Prop where
  size_le : loop.response.length ≤ 65536
  fits : loop.point.Fits loop.response.length

theorem sized_fresh : Sized .fresh where
  size_le := by
    rw [Loop.fresh, DnsClient.fresh, List.length_replicate]
    decide
  fits := trivial

theorem Sized.iteration {response : Bytes} (hsize : response.length ≤ 65536)
    (result : QueryResult) : Sized (iteration response result) := by
  have hle := result.length_le
  rcases iteration_cases response result with
    ⟨-, heq⟩ | ⟨hpos, -, heq⟩ | ⟨hpos, hfits, heq⟩ <;> rw [heq]
  · exact ⟨by rwa [length_store], trivial⟩
  · refine ⟨?_, Or.inl (by decide)⟩
    rw [length_resize]
    omega
  · exact ⟨by rwa [length_store], Or.inr ⟨hpos, by rwa [length_store]⟩⟩

theorem Sized.step {before after : Loop} {event : Event} (hsized : Sized before)
    (hstep : Step before event after) : Sized after := by
  obtain ⟨hsize, hfits⟩ := hsized
  cases hstep with
  | call => exact ⟨hsize, Or.inl (by decide)⟩
  | query result _ => exact Sized.iteration hsize result
  | leave hlength => exact ⟨hsize, hfits.resolve_left hlength⟩
  | finish => exact ⟨hsize, trivial⟩

/-- Every call on the client finds, and leaves, a buffer of a sensible size. -/
theorem sized_of_run {events : List Event} {loop : Loop} (hrun : Run Step .fresh events loop) :
    Sized loop :=
  hrun.invariant Sized sized_fresh fun _ _ _ hbefore hstep => hbefore.step hstep

/-! ## The end of the loop -/

/-- How many steps a call can still take. -/
def remaining : Loop → ℕ
  | ⟨_, .idle⟩ => 0
  | ⟨_, .initparse _⟩ => 1
  | ⟨response, .test length⟩ => if length < 0 then 65536 - response.length + 3 else 2

/-- An answer that is too long makes the buffer larger. -/
theorem length_lt_of_retry {response : Bytes} {result : QueryResult} {length : ℤ}
    (hpoint : (iteration response result).point = .test length) (hlength : length < 0) :
    response.length < (iteration response result).response.length := by
  rcases iteration_cases response result with
    ⟨-, heq⟩ | ⟨-, hlong, heq⟩ | ⟨hpos, -, heq⟩ <;> rw [heq] at hpoint ⊢
  · cases hpoint
  · rw [length_resize]
    omega
  · obtain rfl := Point.test.inj hpoint
    omega

theorem remaining_iteration_lt (response : Bytes) (result : QueryResult) :
    remaining (iteration response result) < 65536 - response.length + 3 := by
  have hle := result.length_le
  rcases iteration_cases response result with
    ⟨-, heq⟩ | ⟨hpos, hlong, heq⟩ | ⟨hpos, -, heq⟩ <;> rw [heq, remaining]
  · omega
  · rw [if_pos (by decide), length_resize]
    omega
  · rw [if_neg (by omega)]
    omega

theorem Step.remaining_lt {before after : Loop} {event : Event}
    (hstep : Step before event after) (hcall : event ≠ .call) :
    remaining after < remaining before := by
  cases hstep with
  | call => exact absurd rfl hcall
  | query result hlength =>
      change _ < if _ then _ else _
      rw [if_pos hlength]
      exact remaining_iteration_lt _ result
  | leave hlength =>
      rw [remaining, remaining, if_neg hlength]
      exact Nat.one_lt_two
  | finish => exact Nat.zero_lt_one

theorem Sized.remaining_le {loop : Loop} (hsized : Sized loop) :
    remaining loop ≤ 65539 - loop.response.length := by
  rcases loop with ⟨response, _ | length | length⟩
  · exact Nat.zero_le _
  · have hsize : response.length ≤ 65536 := hsized.size_le
    change (if length < 0 then _ else _) ≤ 65539 - response.length
    split <;> omega
  · have hsize : response.length ≤ 65536 := hsized.size_le
    change 1 ≤ 65539 - response.length
    omega

/-- Between two calls there are only so many steps. -/
theorem Sized.length_le {loop last : Loop} {events : List Event} (hsized : Sized loop)
    (hrun : Run Step loop events last) (hcall : ∀ event ∈ events, event ≠ .call) :
    events.length ≤ 65539 - loop.response.length := by
  have hle := (hrun.restrict (· ≠ .call) hcall).length_le remaining
    fun _ _ _ hstep => hstep.1.remaining_lt hstep.2
  have hremaining := hsized.remaining_le
  omega

/-- In the loop there is always a next step, whatever `res_nquery` returns. -/
theorem exists_step (response : Bytes) (length : ℤ) (result : QueryResult) :
    ∃ event next, (event = .query result ∨ event = .leave) ∧
      Step ⟨response, .test length⟩ event next := by
  by_cases hlength : length < 0
  · exact ⟨_, _, Or.inl rfl, .query result hlength⟩
  · exact ⟨_, _, Or.inr rfl, .leave hlength⟩

/-- An answer that does not make the buffer larger is in it from the first to the last
byte. -/
theorem take_of_fits {response : Bytes} {result : QueryResult} {length : ℤ}
    (hpoint : (iteration response result).point = .test length) (hlength : ¬length < 0)
    (hpacket : result.length = result.packet.length) :
    (iteration response result).response.take length.toNat = result.packet := by
  rcases iteration_cases response result with
    ⟨-, heq⟩ | ⟨-, -, heq⟩ | ⟨-, hfits, heq⟩ <;> rw [heq] at hpoint ⊢
  · cases hpoint
  · obtain rfl := Point.test.inj hpoint
    exact absurd (by decide) hlength
  · obtain rfl := Point.test.inj hpoint
    rw [hpacket, Int.toNat_natCast]
    exact take_store (by omega)

/-- In whatever state the calls so far have left the client: the loop has a next step for
every result and cannot go on for long, a retry makes the buffer larger, an answer that
fits is in the buffer as a whole, and `ns_initparse` gets a length inside of it. -/
theorem query_loop_ends {events : List Event} {loop : Loop}
    (hrun : Run Step .fresh events loop) :
    (∀ length, loop.point = .test length → ∀ result, ∃ event next,
      (event = .query result ∨ event = .leave) ∧ Step loop event next) ∧
    (∀ more last, Run Step loop more last → (∀ event ∈ more, event ≠ .call) →
      more.length ≤ 65539 - loop.response.length) ∧
    (∀ result next length, Step loop (.query result) next → next.point = .test length →
      (length < 0 → loop.response.length < next.response.length) ∧
      (¬length < 0 → result.length = result.packet.length →
        next.response.take length.toNat = result.packet)) ∧
    ∀ length, loop.point = .initparse length → 0 < length ∧ length < loop.response.length := by
  have hsized := sized_of_run hrun
  refine ⟨?_, fun more last hmore => hsized.length_le hmore, ?_, ?_⟩
  · rcases loop with ⟨response, point⟩
    rintro length rfl result
    exact exists_step response length result
  · intro result next length hstep hpoint
    cases hstep with
    | query => exact ⟨length_lt_of_retry hpoint, take_of_fits hpoint⟩
  · rcases loop with ⟨response, point⟩
    rintro length rfl
    exact hsized.fits

/-- An answer of 5000 bytes. -/
def longAnswer : QueryResult := ⟨5000, List.replicate 5000 0, by decide⟩

theorem query_loop_enlarges_fresh :
    DnsClient.fresh.response.length <
      (iteration DnsClient.fresh.response longAnswer).response.length := by
  have hlong : DnsClient.fresh.response.length ≤ longAnswer.length.toNat := by
    rw [DnsClient.fresh, List.length_replicate]
    decide
  have hpoint : (iteration DnsClient.fresh.response longAnswer).point = .test (-1) := by
    rw [iteration_of_long (by decide) hlong]
  exact ((query_loop_ends (Run.nil.snoc .call)).2.2.1 longAnswer _ (-1)
    (.query longAnswer (by decide)) hpoint).1 (by decide)

/-! ## The loop of the client -/

/-- Where the loop of `DnsClient.processItem` ends. -/
def pointOf : Option ℕ → Point
  | none => .idle
  | some length => .initparse length

/-- One round of the loop. -/
theorem query_run (response : Bytes) (result : QueryResult) :
    Run Step ⟨response, .test (-1)⟩ [.query result] (iteration response result) :=
  Run.nil.snoc (.query result (by decide))

/-- The loop with its built-in end is one of these runs. -/
theorem queryLoop_run (results : ℕ → QueryResult) (attempt : ℕ) (response : Bytes) :
    ∃ events, Run Step ⟨response, .test (-1)⟩ events
      ⟨(queryLoop results attempt response).2,
        pointOf (queryLoop results attempt response).1⟩ := by
  -- the induction is the one of the loop: each retry has a larger buffer
  fun_induction queryLoop results attempt response with
  | case1 attempt response hnone =>
      have hround := query_run response (results attempt)
      rw [iteration_of_nonpos response hnone] at hround
      exact ⟨_, hround⟩
  | case2 attempt response hsome hlong ih =>
      have hround := query_run response (results attempt)
      rw [iteration_of_long (Int.not_le.1 hsome) hlong] at hround
      obtain ⟨events, hrest⟩ := ih
      exact ⟨_, hround.append hrest⟩
  | case3 attempt response hsome hfits =>
      have hround := query_run response (results attempt)
      rw [iteration_of_fits (Int.not_le.1 hsome) (by omega)] at hround
      have hlength : ((results attempt).length.toNat : ℤ) = (results attempt).length :=
        Int.toNat_of_nonneg (by omega)
      rw [pointOf, hlength]
      exact ⟨_, hround.snoc (.leave (by omega))⟩

/-- So is a whole call of `_process_item`. -/
theorem processItem_run (client : DnsClient) (lib : Libresolv) (results : ℕ → QueryResult) :
    ∃ events, Run Step ⟨client.response, .idle⟩ events
      ⟨(client.processItem lib results).2.response, .idle⟩ := by
  obtain ⟨events, hloop⟩ := queryLoop_run results 0 client.response
  have hcall : Run Step ⟨client.response, .idle⟩ [.call] ⟨client.response, .test (-1)⟩ :=
    Run.nil.snoc .call
  have hrun := hcall.append hloop
  rw [DnsClient.processItem]
  rcases hresult : queryLoop results 0 client.response with ⟨_ | length, response⟩
  · rw [hresult] at hrun
    exact ⟨_, hrun⟩
  · rw [hresult] at hrun
    have hfinish := hrun.snoc .finish
    dsimp only
    split
    · exact ⟨_, hfinish⟩
    · exact ⟨_, hfinish⟩

/-- The calls that a thread makes one after the other on its client. -/
def processItems (lib : Libresolv) (client : DnsClient) (calls : List (ℕ → QueryResult)) :
    DnsClient :=
  calls.foldl (fun client results => (client.processItem lib results).2) client

theorem processItems_run (lib : Libresolv) (client : DnsClient)
    (calls : List (ℕ → QueryResult)) :
    ∃ events, Run Step ⟨client.response, .idle⟩ events
      ⟨(processItems lib client calls).response, .idle⟩ := by
  induction calls generalizing client with
  | nil => exact ⟨_, .nil⟩
  | cons results calls ih =>
      obtain ⟨events, hcall⟩ := processItem_run client lib results
      obtain ⟨more, hrest⟩ := ih (client.processItem lib results).2
      exact ⟨_, hcall.append hrest⟩

/-- However many calls there are, the buffer stays within the size of a message and one
byte. -/
theorem length_processItems_le (lib : Libresolv) (calls : List (ℕ → QueryResult)) :
    (processItems lib .fresh calls).response.length ≤ 65536 := by
  obtain ⟨events, hrun⟩ := processItems_run lib .fresh calls
  exact (sized_of_run hrun).size_le

end Nstl.DnsQueryLoop
