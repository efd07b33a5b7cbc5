import FeedDesk.Dispatch.Batch
import FeedDesk.Proofs.Remote.Posts
import Mathlib.Data.List.Chain
import Mathlib.Data.List.Forall2

/-!
# Items are posted once

A batch that is sent by a client posts one request for each job that it tries, in order, and none
after the first that is not acknowledged. A retry begins with the job that was not acknowledged, so
that over a batch and its retries this is the only job posted again, once for each retry: a retry is
one post that repeats and otherwise posts for jobs not tried before.
-/
namespace FeedDesk

/-! ## Runs of batches -/

def untried : BatchResult → List Job
  | .ok _ => []
  | .error failure => failure.remaining

/-- A run of a batch, with the remote side's state seen in another way. -/
def BatchRun.map {σ τ : Type} (see : σ → τ) (run : BatchRun σ) : BatchRun τ where
  requests := run.requests
  progress := run.progress
  result := run.result
  after := see run.after

section
variable {σ τ : Type} {append : AppendRequest → σ → Answer Bool × σ}
  {append' : AppendRequest → τ → Answer Bool × τ} {defaults : DispatchDefaults}
  {listener : ProgressListener} {see : σ → τ}

/-- A batch runs alike at two remote sides that answer alike. -/
theorem sendJobs_map (h : ∀ request s, (append request s).1 = (append' request (see s)).1 ∧
      see (append request s).2 = (append' request (see s)).2)
    (total : Nat) (done jobs : List Job) (s : σ) :
    (sendJobs append defaults listener total done jobs s).map see =
      sendJobs append' defaults listener total done jobs (see s) := by
  induction jobs generalizing done s with
  | nil => rfl
  | cons job rest ih =>
    obtain ⟨hanswer, hafter⟩ := h (job.request defaults) s
    simp only [sendJobs, ← hanswer, ← hafter]
    cases refusal? (append (job.request defaults) s).1 with
    | some error => rfl
    | none => simp only [← ih, BatchRun.map]

section
variable {retries : Nat} {queue : JobQueue} {s : σ}

theorem dispatchRetrying_of_ok {jobs : List Job}
    (h : (dispatch append defaults listener queue s).result = .ok jobs) :
    dispatchRetrying append defaults listener retries queue s =
      [dispatch append defaults listener queue s] := by
  cases retries with
  | zero => rfl
  | succ retries => simp only [dispatchRetrying, h]

theorem dispatchRetrying_of_error {failure : BatchFailure}
    (h : (dispatch append defaults listener queue s).result = .error failure) :
    dispatchRetrying append defaults listener (retries + 1) queue s =
      dispatch append defaults listener queue s ::
        dispatchRetrying append defaults listener retries failure.retryQueue
          (dispatch append defaults listener queue s).after := by
  simp only [dispatchRetrying, h]

end

theorem dispatchRetrying_map (h : ∀ request s, (append request s).1 = (append' request (see s)).1 ∧
      see (append request s).2 = (append' request (see s)).2)
    (retries : Nat) (queue : JobQueue) (s : σ) :
    (dispatchRetrying append defaults listener retries queue s).map (BatchRun.map see) =
      dispatchRetrying append' defaults listener retries queue (see s) := by
  induction retries generalizing queue s with
  | zero => exact congrArg ([·]) (sendJobs_map h ..)
  | succ retries ih =>
    have hrun : (dispatch append defaults listener queue s).map see =
        dispatch append' defaults listener queue (see s) := sendJobs_map h ..
    have hresult : (dispatch append' defaults listener queue (see s)).result =
        (dispatch append defaults listener queue s).result := by rw [← hrun, BatchRun.map]
    cases he : (dispatch append defaults listener queue s).result with
    | ok jobs =>
      rw [dispatchRetrying_of_ok he, dispatchRetrying_of_ok (hresult.trans he), ← hrun]
      rfl
    | error failure =>
      rw [dispatchRetrying_of_error he, dispatchRetrying_of_error (hresult.trans he), ← hrun,
        List.map_cons, ih, BatchRun.map]

end

/-! ## The posts of a batch -/

structure JobPost where
  job : Job
  post : Post

namespace JobPost

def answer (p : JobPost) : Answer Bool := p.post.2.acknowledgement

def Acknowledged (p : JobPost) : Prop := p.answer = .ok true

end JobPost

/-- The requests for some jobs, one for each and under consecutive numbers. -/
def Client.jobRequests (client : Client) (defaults : DispatchDefaults) :
    UInt64 → List Job → List HttpRequest
  | _, [] => []
  | id, job :: jobs =>
    client.request id (.appendUrl (job.request defaults)) ::
      client.jobRequests defaults (id + 1) jobs

/-- How the posts of a batch come to its result: all are acknowledged, or all but the last. -/
inductive EndsAs : List JobPost → BatchResult → Prop
  | completed (posts : List JobPost) (h : ∀ p ∈ posts, p.Acknowledged) :
    EndsAs posts (.ok (posts.map JobPost.job))
  | halted (posts : List JobPost) (last : JobPost) (error : RemoteError) (remaining : List Job)
      (h : ∀ p ∈ posts, p.Acknowledged) (he : refusal? last.answer = some error) :
    EndsAs (posts ++ [last]) (.error ⟨last.job, error, remaining, posts.length⟩)

theorem EndsAs.of_nil {result : BatchResult} (h : EndsAs [] result) : result = .ok [] := by
  generalize hposts : ([] : List JobPost) = posts at h
  cases h with
  | completed =>
    subst hposts
    rfl
  | halted => simp at hposts

section
variable {σ : Type} {transport : Transport σ} {client : Client} {defaults : DispatchDefaults}
  {listener : ProgressListener} {link : Link (σ × List Post)}

/-- What a batch of some jobs posts, behind the posts of the same batch so far. The jobs that it
tries are the first of them. -/
structure BatchPosts (client : Client) (defaults : DispatchDefaults) (link : Link (σ × List Post))
    (jobs : List Job) (past posts : List JobPost) (run : BatchRun (Link (σ × List Post))) :
    Prop where
  tried : jobs = posts.map JobPost.job ++ untried run.result
  record : run.after.server.2 = link.server.2 ++ posts.map JobPost.post
  requests : posts.map (fun p => p.post.1) =
    client.jobRequests defaults link.nextId (posts.map JobPost.job)
  ends : EndsAs (past ++ posts) run.result
  next : run.after.nextId = link.nextId + UInt64.ofNat posts.length

theorem sendJobs_posts (total : Nat) {past : List JobPost} (hpast : ∀ p ∈ past, p.Acknowledged)
    (jobs : List Job) (link : Link (σ × List Post)) :
    ∃ posts, BatchPosts client defaults link jobs past posts
      (sendJobs (client.queueing transport.recording) defaults listener total
        (past.map JobPost.job) jobs link) := by
  induction jobs generalizing past link with
  | nil =>
    refine ⟨[], rfl, (List.append_nil _).symm, rfl, ?_, (UInt64.add_zero _).symm⟩
    rw [List.append_nil]
    exact .completed past hpast
  | cons job rest ih =>
    obtain ⟨outcome, hanswer, hrecord, hnext⟩ :=
      client.exists_post transport (job.request defaults) link
    let p : JobPost :=
      ⟨job, client.request link.nextId (.appendUrl (job.request defaults)), outcome⟩
    have hp : (client.queueing transport.recording (job.request defaults) link).1 = p.answer :=
      hanswer
    simp only [sendJobs, hp]
    cases hrefusal : refusal? p.answer with
    | some error =>
      refine ⟨[p], rfl, hrecord, rfl, ?_, hnext⟩
      simpa using EndsAs.halted past p error rest hpast hrefusal
    | none =>
      have hpast' : ∀ q ∈ past ++ [p], q.Acknowledged := by
        rw [List.forall_mem_append, List.forall_mem_singleton]
        exact ⟨hpast, refusal_eq_none_iff.mp hrefusal⟩
      obtain ⟨posts, h⟩ :=
        ih hpast' (client.queueing transport.recording (job.request defaults) link).2
      rw [List.map_append, List.map_singleton] at h
      refine ⟨p :: posts, ?_, ?_, ?_, ?_, ?_⟩
      · exact congrArg (job :: ·) h.tried
      · rw [h.record, hrecord, List.append_assoc]
        rfl
      · rw [List.map_cons, h.requests, hnext]
        rfl
      · simpa using h.ends
      · rw [h.next, hnext, List.length_cons, UInt64.ofNat_add, UInt64.add_assoc,
          UInt64.add_comm 1]
        rfl

theorem dispatch_posts (queue : JobQueue) (link : Link (σ × List Post)) :
    ∃ posts, BatchPosts client defaults link queue.toList [] posts
      (dispatch (client.queueing transport.recording) defaults listener queue link) :=
  sendJobs_posts queue.size (by simp) queue.toList link

/-! ## The posts of retries -/

theorem Client.jobRequests_append (id : UInt64) (a b : List Job) :
    client.jobRequests defaults id (a ++ b) =
      client.jobRequests defaults id a ++
        client.jobRequests defaults (id + UInt64.ofNat a.length) b := by
  induction a generalizing id with
  | nil => simp [jobRequests]
  | cons job rest ih =>
    rw [List.cons_append, jobRequests, ih, jobRequests, List.length_cons, UInt64.ofNat_add,
      UInt64.add_assoc, UInt64.add_comm 1]
    rfl

/-- The posts of a retry: the one that repeats, and those for jobs not tried before. -/
structure RetryPosts where
  again : JobPost
  fresh : List JobPost

def RetryPosts.all (r : RetryPosts) : List JobPost := r.again :: r.fresh

/-- Whether a batch begins with the job that another one ended at. -/
def Repeats (posts posts' : List JobPost) : Prop :=
  ∃ failed again, posts.getLast? = some failed ∧ posts'.head? = some again ∧
    ¬ failed.Acknowledged ∧ again.job = failed.job

/-- What a batch and its retries post. The jobs tried for the first time are those of the queue in
order, as far as they are tried at all; and each batch after the first begins with the job that the
batch before it ended at. -/
structure PostsOnce (client : Client) (defaults : DispatchDefaults) (link : Link (σ × List Post))
    (queue : JobQueue) (first : List JobPost) (retries : List RetryPosts) (left : List Job)
    (runs : List (BatchRun (Link (σ × List Post)))) : Prop where
  begins : ∃ p fresh, first = p :: fresh ∧ p.job = queue.head
  tried : queue.toList = (first ++ retries.flatMap RetryPosts.fresh).map JobPost.job ++ left
  ends : List.Forall₂ EndsAs (first :: retries.map RetryPosts.all) (runs.map BatchRun.result)
  repeats : (first :: retries.map RetryPosts.all).IsChain Repeats
  requests : (first ++ retries.flatMap RetryPosts.all).map (fun p => p.post.1) =
    client.jobRequests defaults link.nextId
      ((first ++ retries.flatMap RetryPosts.all).map JobPost.job)
  final : ∃ last, runs.getLast? = some last ∧ untried last.result = left ∧
    last.after.server.2 =
      link.server.2 ++ (first ++ retries.flatMap RetryPosts.all).map JobPost.post

variable {queue : JobQueue} {posts : List JobPost} {run : BatchRun (Link (σ × List Post))}

theorem BatchPosts.exists_cons (h : BatchPosts client defaults link queue.toList [] posts run) :
    ∃ p fresh, posts = p :: fresh ∧ p.job = queue.head := by
  cases posts with
  | nil =>
    have htried := h.tried
    rw [h.ends.of_nil] at htried
    cases htried
  | cons p fresh => exact ⟨p, fresh, rfl, (List.cons.inj h.tried).1.symm⟩

theorem BatchPosts.postsOnce (h : BatchPosts client defaults link queue.toList [] posts run) :
    PostsOnce client defaults link queue posts [] (untried run.result) [run] where
  begins := h.exists_cons
  tried := by simpa using h.tried
  ends := .cons h.ends .nil
  repeats := .singleton _
  requests := by simpa using h.requests
  final := ⟨run, rfl, rfl, by simpa using h.record⟩

theorem PostsOnce.retry {failure : BatchFailure} {first : List JobPost}
    {retries : List RetryPosts} {left : List Job}
    {runs : List (BatchRun (Link (σ × List Post)))}
    (h : BatchPosts client defaults link queue.toList [] posts run)
    (hfailure : run.result = .error failure)
    (hr : PostsOnce client defaults run.after failure.retryQueue first retries left runs) :
    ∃ again : RetryPosts,
      PostsOnce client defaults link queue posts (again :: retries) left (run :: runs) := by
  obtain ⟨p, fresh, rfl, hp⟩ := hr.begins
  have htried := h.tried
  have hends := h.ends
  rw [hfailure] at htried
  rw [hfailure, List.nil_append] at hends
  have hleft : failure.remaining =
      (fresh ++ retries.flatMap RetryPosts.fresh).map JobPost.job ++ left :=
    (List.cons.inj hr.tried).2
  refine ⟨⟨p, fresh⟩, h.exists_cons, ?tried, ?ends, ?repeats, ?requests, ?final⟩
  case tried =>
    rw [htried, untried, hleft]
    simp
  case ends =>
    refine .cons ?_ hr.ends
    rw [hfailure]
    exact hends
  case repeats =>
    refine .cons_cons ?_ hr.repeats
    cases hends with
    | halted sent last error remaining _ he =>
      refine ⟨last, p, List.getLast?_concat, rfl, fun hack => ?_, hp⟩
      rw [refusal_eq_none_iff.mpr hack] at he
      cases he
  case requests =>
    have hall : posts ++ (⟨p, fresh⟩ :: retries).flatMap RetryPosts.all =
        posts ++ (p :: fresh ++ retries.flatMap RetryPosts.all) := rfl
    rw [hall, List.map_append, h.requests, hr.requests, h.next]
    simp only [List.map_append, Client.jobRequests_append, List.length_map]
  case final =>
    obtain ⟨last, hlast, hleft, hrecord⟩ := hr.final
    refine ⟨last, ?_, hleft, ?_⟩
    · rw [List.getLast?_cons, hlast]
      rfl
    · rw [hrecord, h.record, List.append_assoc, ← List.map_append]
      rfl

theorem dispatchRetrying_posts (retries : Nat) (queue : JobQueue)
    (link : Link (σ × List Post)) : ∃ first again left,
      PostsOnce client defaults link queue first again left
        (dispatchRetrying (client.queueing transport.recording) defaults listener retries queue
          link) := by
  induction retries generalizing queue link with
  | zero =>
    obtain ⟨posts, h⟩ := dispatch_posts queue link
    exact ⟨posts, [], _, h.postsOnce⟩
  | succ retries ih =>
    obtain ⟨posts, h⟩ : ∃ posts, BatchPosts client defaults link queue.toList [] posts
        (dispatch (client.queueing transport.recording) defaults listener queue link) :=
      dispatch_posts queue link
    cases hresult :
        (dispatch (client.queueing transport.recording) defaults listener queue link).result with
    | ok jobs =>
      rw [dispatchRetrying_of_ok hresult]
      exact ⟨posts, [], _, h.postsOnce⟩
    | error failure =>
      obtain ⟨first, again, left, hr⟩ := ih failure.retryQueue
        (dispatch (client.queueing transport.recording) defaults listener queue link).after
      obtain ⟨p, hp⟩ := PostsOnce.retry h hresult hr
      rw [dispatchRetrying_of_error hresult]
      exact ⟨posts, p :: again, left, hp⟩

/-- A client that sends a batch posts one request for each job that it tries, in order, and none
after the first job that is not acknowledged by true. Over the batch and its retries, of which
there may be any number, each retry posts the job again at which the batch before it ended, and
otherwise only jobs that were not posted before. This holds for every way in which the requests
may end, and the record by which it is told makes no difference to the batches. -/
theorem batch_posts_once (transport : Transport σ) (client : Client) (defaults : DispatchDefaults)
    (listener : ProgressListener) (queue : JobQueue) (link : Link σ) :
    (∃ posts, BatchPosts client defaults link.recorded queue.toList [] posts
      (dispatch (client.queueing transport.recording) defaults listener queue link.recorded)) ∧
    (dispatch (client.queueing transport.recording) defaults listener queue link.recorded).map
        Link.forget =
      dispatch (client.queueing transport) defaults listener queue link ∧
    ∀ retries,
      (∃ first again left, PostsOnce client defaults link.recorded queue first again left
        (dispatchRetrying (client.queueing transport.recording) defaults listener retries queue
          link.recorded)) ∧
      (dispatchRetrying (client.queueing transport.recording) defaults listener retries queue
          link.recorded).map (BatchRun.map Link.forget) =
        dispatchRetrying (client.queueing transport) defaults listener retries queue link := by
  refine ⟨dispatch_posts queue link.recorded, ?_, fun retries => ⟨?_, ?_⟩⟩
  · exact sendJobs_map (client.queueing_forget transport) ..
  · exact dispatchRetrying_posts retries queue link.recorded
  · exact dispatchRetrying_map (client.queueing_forget transport) ..

end

end FeedDesk
