import ThalosBackend.AgreementChat.ChatConduct

/-!
# The bucket and its index

`files` is the index of the objects in the bucket, and the two are written one after the other: the
object first, then its row, and where the row is refused the object is taken out again. Uploads
interleave, ids may even collide, and either write may fail.

Still no row is ever without its object, and no link is made for an object that is not there
(`BucketInv`). The other way round takes more: an object without a row is left behind when the bucket
fails to do what it says, and when an agreement with files is deleted, since the row goes with it and the
object stays. Without these the bucket holds exactly the objects of the index once no request is in
progress.
-/

set_option autoImplicit false

namespace ThalosBackend.AgreementChat

open Calls (Ruled historyOf)
open Files (FilesCall FilesDb NewFile StoredFile)
open Js (FloatArithmetic)

/-! ## What a call does -/

/-- What a call does to the objects, to the index, and to what its request claims. -/
inductive BucketStep (bucket : Bucket) (c : ChatCall) (s : ChatStore) (x : c.reply) (s' : ChatStore) :
    Prop where
  | stored (path contentType : String) (hcall : c = .files (.uploadObject path contentType))
      (hfree : path ∉ s.objects) (hobjects : s'.objects = s.objects ++ [path])
      (hfiles : s'.db.files = s.db.files)
      (hclaim : claimAfter c x = some path ∨ claimAfter c x = none ∧ bucket = .unreliable)
  | recorded (new : NewFile) (row : StoredFile) (hcall : c = .files (.insertFile new))
      (hpath : row.storagePath = new.storagePath)
      (hfree : ∀ f ∈ s.db.files, f.storagePath ≠ new.storagePath)
      (hobjects : s'.objects = s.objects) (hfiles : s'.db.files = s.db.files ++ [row])
      (hclaim : claimAfter c x = none)
  | refused (new : NewFile) (hcall : c = .files (.insertFile new)) (hobjects : s'.objects = s.objects)
      (hfiles : s'.db.files = s.db.files) (hclaim : claimAfter c x = some new.storagePath)
  | removed (path : String) (hcall : c = .files (.removeObject path))
      (hobjects : s'.objects = s.objects.filter (· ≠ path) ∨
        bucket = .unreliable ∧ s'.objects = s.objects)
      (hfiles : s'.db.files = s.db.files) (hclaim : claimAfter c x = none)
  | deleted (id : String) (hcall : c = .files (.agreement (.deleteAgreement id)))
      (hobjects : s'.objects = s.objects)
      (hfiles : s'.db.files = s.db.files.filter fun f => f.agreementId ≠ some id)
      (hclaim : claimAfter c x = none)
  | other (hcall : ∀ req history, Orderly req c history → claimOf history = none)
      (hobjects : s'.objects = s.objects) (hfiles : s'.db.files = s.db.files)
      (hclaim : claimAfter c x = none)

section Queries

variable {bucket : Bucket} {c : ChatCall} {s s' : ChatStore} {x : c.reply}

/-- A file that is not refused has a path that is free. -/
theorem path_of_refusal {db : FilesDb} {new : NewFile} (h : db.refusal new = none) :
    ∀ f ∈ db.files, f.storagePath ≠ new.storagePath := by
  intro f hf hpath
  unfold FilesDb.refusal at h
  split at h
  · cases h
  · split at h
    · cases h
    · rename_i hfree
      exact hfree ⟨f, hf, .inr hpath⟩

theorem Executes.bucketStep (h : Executes bucket c s x s') : BucketStep bucket c s x s' := by
  cases c with
  | findMessages agreementId =>
      rcases h with ⟨rfl, -⟩ | ⟨-, rfl⟩
      · exact .other (fun _ _ h => h) rfl rfl rfl
      · exact .other (fun _ _ h => h) rfl rfl rfl
  | findAttachments messageIds =>
      rcases h with ⟨rfl, -⟩ | ⟨-, rfl⟩
      · exact .other (fun _ _ h => h) rfl rfl rfl
      · exact .other (fun _ _ h => h) rfl rfl rfl
  | files c =>
      cases c with
      | uploadObject path contentType =>
          rcases h with (⟨⟨e, rfl⟩, rfl⟩ | ⟨hfree, rfl, hx⟩) | ⟨hfails, -⟩
          · exact .other (fun _ _ h => h) rfl rfl rfl
          · refine .stored path contentType rfl hfree rfl rfl ?_
            -- a bucket that does not keep its word may store the object and answer with an error
            rcases hx with rfl | hbucket
            · exact .inl rfl
            · cases x with
              | ok _ => exact .inl rfl
              | error e => exact .inr ⟨rfl, hbucket⟩
          · exact hfails.elim
      | removeObject path =>
          rcases h with (rfl | ⟨hbucket, rfl⟩) | ⟨hfails, -⟩
          · exact .removed path rfl (.inl rfl) rfl rfl
          · exact .removed path rfl (.inr ⟨hbucket, rfl⟩) rfl rfl
          · exact hfails.elim
      | insertFile new =>
          rcases h with ⟨hanswers, hobjects⟩ | ⟨⟨⟨e, rfl⟩, hsame⟩, hobjects⟩
          · simp only [Files.Answers] at hanswers
            split at hanswers
            · obtain ⟨rfl, hsame⟩ := hanswers
              exact .refused new rfl hobjects (by rw [hsame]) rfl
            · rename_i hrefusal
              obtain ⟨created, rfl, hdb⟩ := hanswers
              exact .recorded new (new.row created) rfl rfl (path_of_refusal hrefusal) hobjects
                (by rw [hdb]) rfl
          · exact .refused new rfl hobjects (by rw [hsame]) rfl
      | agreement c =>
          rcases h with ⟨⟨agreement, -, hdb⟩, hobjects⟩ | ⟨⟨-, hsame⟩, hobjects⟩
          · cases c with
            | deleteAgreement id => exact .deleted id rfl hobjects (by rw [hdb]; rfl) rfl
            | _ => exact .other (fun _ _ h => h) hobjects (by rw [hdb]; rfl) rfl
          · exact .other (fun _ _ h => h) hobjects (by rw [hsame]) rfl
      | findFiles ids =>
          have hsame : s'.db = s.db ∧ s'.objects = s.objects := by
            rcases h with ⟨⟨-, hsame⟩, hobjects⟩ | ⟨⟨-, hsame⟩, hobjects⟩
            · exact ⟨hsame, hobjects⟩
            · exact ⟨hsame, hobjects⟩
          exact .other (fun _ _ h => h) hsame.2 (by rw [hsame.1]) rfl
      | createSignedUrl path ttl download =>
          rcases h with ⟨hsame, hobjects⟩ | ⟨hfails, -⟩
          · exact .other (fun _ _ h => h.1) hobjects (by rw [hsame]) rfl
          · exact hfails.elim
      | insertMessage new =>
          rcases h with ⟨⟨id, created, -, -, hdb⟩, hobjects⟩ | ⟨⟨-, hsame⟩, hobjects⟩
          · exact .other (fun _ _ h => h.1) hobjects (by rw [hdb]) rfl
          · exact .other (fun _ _ h => h.1) hobjects (by rw [hsame]) rfl
      | insertAttachments rows =>
          rcases h with ⟨hanswers, hobjects⟩ | ⟨⟨-, hsame⟩, hobjects⟩
          · simp only [Files.Answers] at hanswers
            split at hanswers
            · exact .other (fun _ _ h => h.1) hobjects (by rw [hanswers.2]) rfl
            · exact .other (fun _ _ h => h.1) hobjects (by rw [hanswers.2]) rfl
          · exact .other (fun _ _ h => h.1) hobjects (by rw [hsame]) rfl

/-- Files that are found are in the index. -/
theorem Executes.found {unique : List String} {rows : List StoredFile}
    (h : Executes bucket (.files (.findFiles unique)) s (.ok rows) s') : ∀ f ∈ rows, f ∈ s.db.files := by
  intro f hf
  rcases h with ⟨⟨⟨rows', heq, hperm⟩, -⟩, -⟩ | ⟨⟨⟨e, he⟩, -⟩, -⟩
  · cases heq
    exact List.mem_of_mem_filter (hperm.mem_iff.mp hf)
  · cases he

end Queries

/-! ## Every run -/

/-- The path that a task claims. -/
abbrev claims (k : ChatTask) : Option String := claimOf (historyOf k.rest)

/-- An object that no request in progress will take out of the bucket. -/
def Settled (c : ChatConfig) (path : String) : Prop :=
  path ∈ c.shared.objects ∧ ∀ t k, c.threads t = some k → claims k ≠ some path

/-- What every run keeps: what is claimed is in the bucket, and by one request only; and what is in the
index, or was found there, is settled. -/
structure BucketInv (c : ChatConfig) : Prop where
  ruled : Ruled Orderly Ended c
  claimed : ∀ t k path, c.threads t = some k → claims k = some path → path ∈ c.shared.objects
  apart : ∀ t t' k k' path, t ≠ t' → c.threads t = some k → c.threads t' = some k' →
    claims k = some path → claims k' ≠ some path
  indexed : ∀ f ∈ c.shared.db.files, Settled c f.storagePath
  found : ∀ t k f, c.threads t = some k → Found (historyOf k.rest) f → Settled c f.storagePath
  distinct : (c.shared.db.files.map StoredFile.storagePath).Nodup
  objects : c.shared.objects.Nodup

section Invariant

variable {F : FloatArithmetic} {c c' : ChatConfig} {l : ChatLabel} {t : ℕ} {req : ChatRequest}
  {call : ChatCall × ChatHistory}
  {cont : call.1.reply → Calls (HttpException × ChatHistory) (ChatCall × ChatHistory)
    (fun c => c.1.reply) (ChatAnswer × ChatHistory)}
  {bucket : Bucket} {x : call.1.reply} {s : ChatStore}

/-- What a step does to the claim of a request. -/
theorem claims_after (h : BucketInv c) (hk : c.threads t = some ⟨req, .call call cont⟩) :
    claims ⟨req, cont x⟩ = claimAfter call.1 x := by
  change claimOf (historyOf (cont x)) = _
  rw [h.ruled.historyOf_cont hk]
  rfl

/-- What is settled stays settled: an upload finds the path taken, and an object is removed only by the
request that claims it. -/
theorem Settled.after (h : BucketInv c) (hk : c.threads t = some ⟨req, .call call cont⟩)
    (hexec : Executes bucket call.1 c.shared x s) {path : String} (hpath : Settled c path) :
    Settled (Calls.after c t req (cont x) s) path := by
  obtain ⟨hobject, hnone⟩ := hpath
  have hrule : Orderly req call.1 call.2 := (h.ruled.next hk).1
  have hown : claimOf call.2 ≠ some path := hnone t _ hk
  have hstep : path ∈ s.objects ∧ claimAfter call.1 x ≠ some path := by
    cases hexec.bucketStep with
    | stored path' contentType hcall hfree hobjects hfiles hclaim =>
        rw [hobjects]
        refine ⟨List.mem_append_left _ hobject, fun heq => ?_⟩
        rcases hclaim with hclaim | ⟨hclaim, -⟩
        · rw [hclaim] at heq
          exact hfree (Option.some.inj heq ▸ hobject)
        · rw [hclaim] at heq
          cases heq
    | recorded new row hcall hrow hfree hobjects hfiles hclaim => simp [hobjects, hobject, hclaim]
    | refused new hcall hobjects hfiles hclaim =>
        -- the claim is the one the request had
        rw [hcall] at hrule
        rw [hobjects, hclaim, ← hrule.1]
        exact ⟨hobject, hown⟩
    | removed path' hcall hobjects hfiles hclaim =>
        rw [hcall] at hrule
        have hne : path ≠ path' := by
          rintro rfl
          exact hown hrule
        rw [hclaim]
        refine ⟨?_, nofun⟩
        rcases hobjects with hobjects | ⟨-, hobjects⟩
        · simpa [hobjects, hne] using hobject
        · rwa [hobjects]
    | deleted id hcall hobjects hfiles hclaim => simp [hobjects, hobject, hclaim]
    | other hcall hobjects hfiles hclaim => simp [hobjects, hobject, hclaim]
  refine ⟨hstep.1, fun t' k' hk' => ?_⟩
  rcases Threads.update_eq_some hk' with ⟨-, hself⟩ | ⟨-, hother⟩
  · cases hself
    rw [claims_after h hk]
    exact hstep.2
  · exact hnone t' k' hother

/-- A new row has its object, which its request has claimed and claims no longer. -/
theorem settled_recorded (h : BucketInv c) (hk : c.threads t = some ⟨req, .call call cont⟩)
    {path : String} (hclaimed : claimOf call.2 = some path) (hobjects : s.objects = c.shared.objects)
    (hclaim : claimAfter call.1 x = none) : Settled (Calls.after c t req (cont x) s) path := by
  have hobject : path ∈ c.shared.objects := h.claimed t _ path hk hclaimed
  refine ⟨hobjects ▸ hobject, fun t' k' hk' => ?_⟩
  rcases Threads.update_eq_some hk' with ⟨-, hself⟩ | ⟨hne, hother⟩
  · cases hself
    rw [claims_after h hk, hclaim]
    nofun
  · exact h.apart t t' _ k' path (Ne.symm hne) hk hother hclaimed

/-- What is claimed after a call is in the bucket, and was not claimed by others before. -/
theorem claim_fresh (h : BucketInv c) (hk : c.threads t = some ⟨req, .call call cont⟩)
    (hexec : Executes bucket call.1 c.shared x s) {path : String}
    (hclaim : claimAfter call.1 x = some path) : path ∈ s.objects ∧
      ∀ t' k', t' ≠ t → c.threads t' = some k' → claims k' ≠ some path := by
  have hrule : Orderly req call.1 call.2 := (h.ruled.next hk).1
  have hnone : claimAfter call.1 x ≠ none := by simp [hclaim]
  cases hexec.bucketStep with
  | stored path' contentType hcall hfree hobjects hfiles hclaim' =>
      have hpath : path = path' := by
        rcases hclaim' with hclaim' | ⟨hclaim', -⟩
        · exact Option.some.inj (hclaim.symm.trans hclaim')
        · exact absurd hclaim' hnone
      subst hpath
      refine ⟨by simp [hobjects], fun t' k' _ hk' heq => ?_⟩
      exact hfree (h.claimed t' k' path hk' heq)
  | refused new hcall hobjects hfiles hclaim' =>
      obtain rfl : path = new.storagePath := Option.some.inj (hclaim.symm.trans hclaim')
      rw [hcall] at hrule
      have hown : claims (⟨req, .call call cont⟩ : ChatTask) = some new.storagePath := hrule.1
      refine ⟨hobjects ▸ h.claimed t _ _ hk hown, fun t' k' hne hk' => ?_⟩
      exact h.apart t t' _ k' _ (Ne.symm hne) hk hk' hown
  | recorded new row hcall hrow hfree hobjects hfiles hclaim' => exact absurd hclaim' hnone
  | removed path' hcall hobjects hfiles hclaim' => exact absurd hclaim' hnone
  | deleted id hcall hobjects hfiles hclaim' => exact absurd hclaim' hnone
  | other hcall hobjects hfiles hclaim' => exact absurd hclaim' hnone

/-- What a request claims stays in the bucket, whatever the others do. -/
theorem claim_kept (h : BucketInv c) (hk : c.threads t = some ⟨req, .call call cont⟩)
    (hexec : Executes bucket call.1 c.shared x s) {t' : ℕ} {k' : ChatTask} {path : String}
    (hne : t' ≠ t) (hk' : c.threads t' = some k') (hclaim : claims k' = some path) :
    path ∈ s.objects := by
  have hobject := h.claimed t' k' path hk' hclaim
  have hrule : Orderly req call.1 call.2 := (h.ruled.next hk).1
  cases hexec.bucketStep with
  | stored path' contentType hcall hfree hobjects hfiles hclaim' =>
      rw [hobjects]
      exact List.mem_append_left _ hobject
  | removed path' hcall hobjects hfiles hclaim' =>
      rw [hcall] at hrule
      have hother : path ≠ path' := by
        rintro rfl
        exact h.apart t t' _ k' path (Ne.symm hne) hk hk' hrule hclaim
      rcases hobjects with hobjects | ⟨-, hobjects⟩
      · simpa [hobjects, hother] using hobject
      · rwa [hobjects]
  | recorded new row hcall hrow hfree hobjects hfiles hclaim' => rwa [hobjects]
  | refused new hcall hobjects hfiles hclaim' => rwa [hobjects]
  | deleted id hcall hobjects hfiles hclaim' => rwa [hobjects]
  | other hcall hobjects hfiles hclaim' => rwa [hobjects]

/-- No object is there twice, and no two rows name one object. -/
theorem BucketStep.nodup (hstep : BucketStep bucket call.1 c.shared x s) (h : BucketInv c) :
    (s.db.files.map StoredFile.storagePath).Nodup ∧ s.objects.Nodup := by
  have hdistinct := h.distinct
  have hnodup := h.objects
  cases hstep with
  | stored path contentType hcall hfree hobjects hfiles hclaim =>
      rw [hobjects, hfiles, ← List.concat_eq_append]
      exact ⟨hdistinct, hnodup.concat hfree⟩
  | recorded new row hcall hrow hfree hobjects hfiles hclaim =>
      rw [hobjects, hfiles, List.map_append, List.map_singleton, hrow, ← List.concat_eq_append]
      refine ⟨hdistinct.concat fun hmem => ?_, hnodup⟩
      obtain ⟨f, hf, heq⟩ := List.mem_map.mp hmem
      exact hfree f hf heq
  | refused new hcall hobjects hfiles hclaim => exact ⟨hfiles ▸ hdistinct, hobjects ▸ hnodup⟩
  | removed path hcall hobjects hfiles hclaim =>
      refine ⟨hfiles ▸ hdistinct, ?_⟩
      rcases hobjects with hobjects | ⟨-, hobjects⟩
      · exact hobjects ▸ hnodup.filter _
      · exact hobjects ▸ hnodup
  | deleted id hcall hobjects hfiles hclaim =>
      refine ⟨?_, hobjects ▸ hnodup⟩
      rw [hfiles]
      exact hdistinct.sublist (List.filter_sublist.map _)
  | other hcall hobjects hfiles hclaim => exact ⟨hfiles ▸ hdistinct, hobjects ▸ hnodup⟩

/-- **Step lemma.** A call keeps the bucket and the index in step. -/
theorem BucketInv.act (h : BucketInv c) (hk : c.threads t = some ⟨req, .call call cont⟩)
    (hexec : Executes bucket call.1 c.shared x s)
    (hruled : Ruled Orderly Ended (Calls.after c t req (cont x) s)) :
    BucketInv (Calls.after c t req (cont x) s) := by
  have hsettled : ∀ path, Settled c path → Settled (Calls.after c t req (cont x) s) path :=
    fun path hpath => hpath.after h hk hexec
  have hstep := hexec.bucketStep
  have hnodup := hstep.nodup h
  refine ⟨hruled, ?_, ?_, ?_, ?_, hnodup.1, hnodup.2⟩
  · intro t' k' path hk' hclaim
    rcases Threads.update_eq_some hk' with ⟨-, hself⟩ | ⟨hne, hother⟩
    · -- what the request claims now, nobody else claims and no row names
      cases hself
      rw [claims_after h hk] at hclaim
      exact (claim_fresh h hk hexec hclaim).1
    · exact claim_kept h hk hexec hne hother hclaim
  · intro t₁ t₂ k₁ k₂ path hne hk₁ hk₂ hclaim
    rcases Threads.update_eq_some hk₁ with ⟨rfl, hself⟩ | ⟨hne₁, hother₁⟩
    · cases hself
      rw [claims_after h hk] at hclaim
      rcases Threads.update_eq_some hk₂ with ⟨rfl, -⟩ | ⟨hne₂, hother₂⟩
      · exact absurd rfl hne
      · exact (claim_fresh h hk hexec hclaim).2 t₂ k₂ hne₂ hother₂
    · rcases Threads.update_eq_some hk₂ with ⟨rfl, hself⟩ | ⟨hne₂, hother₂⟩
      · cases hself
        rw [claims_after h hk]
        intro hown
        exact (claim_fresh h hk hexec hown).2 t₁ k₁ hne₁ hother₁ hclaim
      · exact h.apart t₁ t₂ k₁ k₂ path hne hother₁ hother₂ hclaim
  · intro f hf
    cases hstep with
    | recorded new row hcall hrow hfree hobjects hfiles hclaim =>
        have hf : f ∈ s.db.files := hf
        rw [hfiles] at hf
        rcases List.mem_append.mp hf with hold | hnew
        · exact hsettled _ (h.indexed f hold)
        · -- the new row is that of the object which the request had stored
          obtain rfl := List.mem_singleton.mp hnew
          have hrule : Orderly req call.1 call.2 := (h.ruled.next hk).1
          rw [hcall] at hrule
          rw [hrow]
          exact settled_recorded h hk hrule.1 hobjects hclaim
    | deleted id hcall hobjects hfiles hclaim =>
        have hf : f ∈ s.db.files := hf
        rw [hfiles] at hf
        exact hsettled _ (h.indexed f (List.mem_of_mem_filter hf))
    | stored path contentType hcall hfree hobjects hfiles hclaim =>
        exact hsettled _ (h.indexed f (hfiles ▸ hf))
    | refused new hcall hobjects hfiles hclaim => exact hsettled _ (h.indexed f (hfiles ▸ hf))
    | removed path hcall hobjects hfiles hclaim => exact hsettled _ (h.indexed f (hfiles ▸ hf))
    | other hcall hobjects hfiles hclaim => exact hsettled _ (h.indexed f (hfiles ▸ hf))
  · intro t' k' f hk' hfound
    rcases Threads.update_eq_some hk' with ⟨-, hself⟩ | ⟨-, hother⟩
    · cases hself
      obtain ⟨unique, rows, hmem, hf⟩ := hfound
      rw [h.ruled.historyOf_cont hk] at hmem
      rcases List.mem_cons.mp hmem with heq | hmem
      · -- the file was found just now, so it was in the index
        obtain ⟨query, history⟩ := call
        cases heq
        exact hsettled _ (h.indexed f (Executes.found hexec f hf))
      · exact hsettled _ (h.found t _ f hk ⟨unique, rows, hmem, hf⟩)
    · exact hsettled _ (h.found t' k' f hother hfound)

/-- The invariant is about the objects, the index and the requests only. -/
theorem BucketInv.env (h : BucketInv c) {s : ChatStore} (hfiles : s.db.files = c.shared.db.files)
    (hobjects : s.objects = c.shared.objects) : BucketInv ⟨s, c.threads⟩ where
  ruled := h.ruled
  claimed := by
    rw [hobjects]
    exact h.claimed
  apart := h.apart
  indexed := by
    intro f hf
    rw [hfiles] at hf
    exact ⟨hobjects ▸ (h.indexed f hf).1, (h.indexed f hf).2⟩
  found := by
    intro t k f hk hfound
    exact ⟨hobjects ▸ (h.found t k f hk hfound).1, (h.found t k f hk hfound).2⟩
  distinct := hfiles ▸ h.distinct
  objects := hobjects ▸ h.objects

/-- A request that begins claims nothing, and has found nothing. -/
theorem BucketInv.start (h : BucketInv c) {k : ChatTask} (hk : historyOf k.rest = [])
    (hruled : Ruled Orderly Ended ⟨c.shared, Function.update c.threads t (some k)⟩) :
    BucketInv ⟨c.shared, Function.update c.threads t (some k)⟩ := by
  have hclaims : claims k = none := by
    rw [claims, hk]
    rfl
  have hsettled : ∀ path, Settled c path →
      Settled ⟨c.shared, Function.update c.threads t (some k)⟩ path := by
    rintro path ⟨hobject, hnone⟩
    refine ⟨hobject, fun t' k' hk' => ?_⟩
    rcases Threads.update_eq_some hk' with ⟨-, hself⟩ | ⟨-, hother⟩
    · cases hself
      rw [hclaims]
      nofun
    · exact hnone t' k' hother
  refine ⟨hruled, ?_, ?_, fun f hf => hsettled _ (h.indexed f hf), ?_, h.distinct, h.objects⟩
  · intro t' k' path hk' hclaim
    rcases Threads.update_eq_some hk' with ⟨-, hself⟩ | ⟨-, hother⟩
    · cases hself
      rw [hclaims] at hclaim
      cases hclaim
    · exact h.claimed t' k' path hother hclaim
  · intro t₁ t₂ k₁ k₂ path hne hk₁ hk₂ hclaim
    rcases Threads.update_eq_some hk₁ with ⟨-, hself⟩ | ⟨-, hother₁⟩
    · cases hself
      rw [hclaims] at hclaim
      cases hclaim
    · rcases Threads.update_eq_some hk₂ with ⟨-, hself⟩ | ⟨-, hother₂⟩
      · cases hself
        rw [hclaims]
        nofun
      · exact h.apart t₁ t₂ k₁ k₂ path hne hother₁ hother₂ hclaim
  · intro t' k' f hk' hfound
    rcases Threads.update_eq_some hk' with ⟨-, hself⟩ | ⟨-, hother⟩
    · cases hself
      obtain ⟨unique, rows, hmem, -⟩ := hfound
      rw [hk] at hmem
      cases hmem
    · exact hsettled _ (h.found t' k' f hother hfound)

/-- **Run lemma.** The bucket and the index are in step in every run. -/
theorem bucketInv_of_reachable (h : (chatSystem F).Reachable c) : BucketInv c := by
  refine StepSystem.invariant_of_steps (M := chatSystem F) (I := BucketInv) ?_ ?_ h
  · rintro c ⟨⟨hfiles, -, -, hobjects⟩, hnone⟩
    refine ⟨Calls.ruled_of_none hnone, ?_, ?_, by simp [hfiles], ?_, by simp [hfiles],
      by simp [hobjects]⟩
    · intro t k path hk
      rw [hnone t] at hk
      cases hk
    · intro t t' k k' path _ hk
      rw [hnone t] at hk
      cases hk
    · intro t k f hk
      rw [hnone t] at hk
      cases hk
  · intro c l c' _ hI hstep
    have hruled : Ruled Orderly Ended c' :=
      hI.ruled.step (fun req => ⟨_, rfl, program_orderly F req⟩) hstep
    cases Calls.step_cases hstep with
    | start t req hfree => exact hI.start (Calls.historyOf_traced _ _) hruled
    | act t bucket req call cont x s hk hexec => exact hI.act hk hexec hruled
    | env wallet s hb =>
        obtain rfl : s = _ := hb
        exact hI.env rfl rfl

end Invariant

/-! ## Nothing is left behind -/

/-- The bucket does what it says, and no agreement is deleted that has files. -/
def KeepsObjects (c : ChatConfig) (l : ChatLabel) : Prop :=
  KeepsFiles c l ∧ ∀ t bucket, l = .act t bucket → bucket = .reliable

/-- Each object has its row, or a request that is about to insert it or to remove the object. -/
def Owned (c : ChatConfig) : Prop :=
  ∀ path ∈ c.shared.objects, (∃ f ∈ c.shared.db.files, f.storagePath = path) ∨
    ∃ t k, c.threads t = some k ∧ claims k = some path

section Orphans

variable {F : FloatArithmetic} {c : ChatConfig}

/-- **Step lemma.** A call leaves no object behind. -/
theorem Owned.act (h : Owned c) (hinv : BucketInv c) {t : ℕ} {req : ChatRequest}
    {call : ChatCall × ChatHistory}
    {cont : call.1.reply → Calls (HttpException × ChatHistory) (ChatCall × ChatHistory)
      (fun c => c.1.reply) (ChatAnswer × ChatHistory)}
    {bucket : Bucket} {x : call.1.reply} {s : ChatStore}
    (hk : c.threads t = some ⟨req, .call call cont⟩) (hexec : Executes bucket call.1 c.shared x s)
    (hguard : KeepsObjects c (.act t bucket)) : Owned (Calls.after c t req (cont x) s) := by
  have hrule : Orderly req call.1 call.2 := (hinv.ruled.next hk).1
  have hself : ∀ path, claimAfter call.1 x = some path →
      ∃ t' k', (Calls.after c t req (cont x) s).threads t' = some k' ∧ claims k' = some path := by
    intro path hclaim
    exact ⟨t, ⟨req, cont x⟩, by simp, by rw [claims_after hinv hk, hclaim]⟩
  -- who is claimed by another, or has its row, stays so
  have hkept : ∀ path, path ∈ c.shared.objects → claimOf call.2 ≠ some path →
      (∀ f ∈ c.shared.db.files, f ∈ s.db.files) →
      (∃ f ∈ s.db.files, f.storagePath = path) ∨
        ∃ t' k', (Calls.after c t req (cont x) s).threads t' = some k' ∧ claims k' = some path := by
    intro path hpath hown hfiles
    rcases h path hpath with ⟨f, hf, heq⟩ | ⟨t', k', hk', hclaim⟩
    · exact .inl ⟨f, hfiles f hf, heq⟩
    · by_cases ht : t' = t
      · subst ht
        obtain rfl := Option.some.inj (hk'.symm.trans hk)
        exact absurd hclaim hown
      · exact .inr ⟨t', k', by simpa [ht] using hk', hclaim⟩
  intro path hpath
  have hpath : path ∈ s.objects := hpath
  cases hexec.bucketStep with
  | stored path' contentType hcall hfree hobjects hfiles hclaim =>
      have hclaim : claimAfter call.1 x = some path' := by
        rcases hclaim with hclaim | ⟨-, hbucket⟩
        · exact hclaim
        · cases (hguard.2 t bucket rfl).symm.trans hbucket
      rw [hcall] at hrule
      have hunclaimed : claimOf call.2 = none := hrule
      rw [hobjects] at hpath
      rcases List.mem_append.mp hpath with hold | hnew
      · exact hkept path hold (by simp [hunclaimed]) (by simp [hfiles])
      · obtain rfl := List.mem_singleton.mp hnew
        exact .inr (hself _ hclaim)
  | recorded new row hcall hrow hfree hobjects hfiles hclaim =>
      rw [hcall] at hrule
      rw [hobjects] at hpath
      by_cases heq : path = new.storagePath
      · exact .inl ⟨row, by simp [hfiles], hrow.trans heq.symm⟩
      · refine hkept path hpath ?_ (fun f hf => by simp [hfiles, hf])
        rw [hrule.1]
        exact fun h => heq (Option.some.inj h).symm
  | refused new hcall hobjects hfiles hclaim =>
      rw [hcall] at hrule
      rw [hobjects] at hpath
      by_cases heq : path = new.storagePath
      · exact .inr (hself _ (heq ▸ hclaim))
      · refine hkept path hpath ?_ (by simp [hfiles])
        rw [hrule.1]
        exact fun h => heq (Option.some.inj h).symm
  | removed path' hcall hobjects hfiles hclaim =>
      rw [hcall] at hrule
      have hrule : claimOf call.2 = some path' := hrule
      rcases hobjects with hobjects | ⟨hbucket, -⟩
      · rw [hobjects, List.mem_filter, decide_eq_true_eq] at hpath
        refine hkept path hpath.1 ?_ (by simp [hfiles])
        rw [hrule]
        exact fun h => hpath.2 (Option.some.inj h).symm
      · cases (hguard.2 t bucket rfl).symm.trans hbucket
  | deleted id hcall hobjects hfiles hclaim =>
      obtain ⟨query, history⟩ := call
      obtain rfl : query = _ := hcall
      have hunclaimed : claimOf history = none := hrule
      rw [hobjects] at hpath
      refine hkept path hpath (by simp [hunclaimed]) fun f hf => ?_
      rw [hfiles]
      exact List.mem_filter.mpr ⟨hf, by simpa using hguard.1 req id history cont hk f hf⟩
  | other hcall hobjects hfiles hclaim =>
      have hunclaimed := hcall req call.2 hrule
      rw [hobjects] at hpath
      exact hkept path hpath (by simp [hunclaimed]) (by simp [hfiles])

/-- **Run lemma.** No object is left behind. -/
theorem owned_of_reachable (h : ((chatSystem F).restrict KeepsObjects).Reachable c) : Owned c := by
  refine StepSystem.invariant_of_steps (M := (chatSystem F).restrict KeepsObjects) (I := Owned) ?_ ?_ h
  · rintro c ⟨⟨-, -, -, hobjects⟩, -⟩ path hpath
    rw [hobjects] at hpath
    cases hpath
  · rintro c l c' hreach hI ⟨hguard, hstep⟩
    have hinv := bucketInv_of_reachable hreach.of_restrict
    cases Calls.step_cases hstep with
    | start t req hfree =>
        intro path hpath
        rcases hI path hpath with hrow | ⟨t', k', hk', hclaim⟩
        · exact .inl hrow
        · have hne : t' ≠ t := by
            rintro rfl
            rw [hfree] at hk'
            cases hk'
          exact .inr ⟨t', k', by simpa [hne] using hk', hclaim⟩
    | act t bucket req call cont x s hk hexec => exact hI.act hinv hk hexec hguard
    | env wallet s hb =>
        obtain rfl : s = _ := hb
        exact hI

/-- A request that has ended claims nothing. -/
theorem claims_of_ended (hruled : Ruled Orderly Ended c) {t : ℕ} {k : ChatTask}
    (hk : c.threads t = some k) (hended : ¬ Calls.InProgress k.rest) : claims k = none := by
  obtain ⟨req, rest⟩ := k
  cases rest with
  | done out => exact (hruled.ended hk).1
  | fail e => exact (hruled.failed hk).1
  | call call cont => exact absurd trivial hended

/-- **The bucket and its index.** In every run, no two rows of `files` name one object, every row has its
object, and so has every link that is about to be made. Where the bucket does what it says and no
agreement with files is deleted, the bucket holds exactly the objects of the index whenever all requests
have ended. -/
theorem bucket_in_step :
    (∀ c, (chatSystem F).Reachable c →
      (c.shared.db.files.map StoredFile.storagePath).Nodup ∧
      (∀ f ∈ c.shared.db.files, f.storagePath ∈ c.shared.objects) ∧
      ∀ t req path ttl download history cont, c.threads t =
        some ⟨req, .call (.files (.createSignedUrl path ttl download), history) cont⟩ →
          path ∈ c.shared.objects) ∧
    ∀ c, ((chatSystem F).restrict KeepsObjects).Reachable c → Calls.AllEnded c →
      c.shared.objects.Perm (c.shared.db.files.map StoredFile.storagePath) := by
  constructor
  · intro c hreach
    have hinv := bucketInv_of_reachable hreach
    refine ⟨hinv.distinct, fun f hf => (hinv.indexed f hf).1, ?_⟩
    intro t req path ttl download history cont hk
    obtain ⟨-, f, hfound, rfl⟩ := (hinv.ruled.next hk).1
    exact (hinv.found t _ f hk hfound).1
  · intro c hreach hended
    have hinv := bucketInv_of_reachable hreach.of_restrict
    apply (List.perm_ext_iff_of_nodup hinv.objects hinv.distinct).mpr
    intro path
    constructor
    · intro hpath
      -- an object without a row is claimed by an upload that is under way
      rcases owned_of_reachable hreach path hpath with ⟨f, hf, rfl⟩ | ⟨t, k, hk, hclaim⟩
      · exact List.mem_map_of_mem hf
      · rw [claims_of_ended hinv.ruled hk (hended t k hk)] at hclaim
        cases hclaim
    · intro hpath
      obtain ⟨f, hf, rfl⟩ := List.mem_map.mp hpath
      exact (hinv.indexed f hf).1

end Orphans

/-! ## Two uploads under one id -/

section Example

open Agreements (exactArithmetic)
open Calls (Move)

/-- `payer` uploads two files under one id at the same time. -/
def collidingMoves : List (Move ChatRequest) :=
  .start (.files (.agreement (Agreements.createOperation "10" none Agreements.splitTen))) ::
    (List.replicate 20 (.next 0) ++ .start (.files (.upload "payer" "P" (some "i") "f" Files.note)) ::
      .start (.files (.upload "payer" "P" (some "i") "f" Files.note)) ::
      (List.replicate 10 [Move.next 1, Move.next 2]).flatten)

theorem keepsObjects_of_deletesNone {s : ChatStore} {tasks : List ChatTask} {m : Move ChatRequest}
    (h : deletesNone s tasks m = true) :
    KeepsObjects (Calls.begun s tasks) (m.label (chatServing exactArithmetic) .reliable tasks) := by
  refine ⟨keepsFiles_of_deletesNone h, fun t bucket hl => ?_⟩
  cases m with
  | start req => cases hl
  | next t' =>
      cases hl
      rfl

/-- One of them is refused, and the object of the other stays. -/
theorem bucket_in_step_collision : ∃ c, ((chatSystem exactArithmetic).restrict KeepsObjects).Reachable c ∧
    c.shared.objects = ["agreements/i/f"] ∧
    c.shared.objects.Perm (c.shared.db.files.map StoredFile.storagePath) := by
  have hrun : ((playChat deletesNone collidingMoves).any fun state =>
      state.1.objects = ["agreements/i/f"] ∧ Calls.allEnded state.2 = true) = true := by decide +kernel
  obtain ⟨state, hstate, hend⟩ := (Option.any_eq_true _ _).mp hrun
  obtain ⟨hobjects, hended⟩ := of_decide_eq_true hend
  have hreach := reachable_playChat (fun _ _ _ => keepsObjects_of_deletesNone) hstate
  exact ⟨_, hreach, hobjects, bucket_in_step.2 _ hreach (Calls.allEnded_begun hended)⟩

end Example

end ThalosBackend.AgreementChat
