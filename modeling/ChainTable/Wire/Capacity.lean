import ChainTable.Server.InvokeLaws
import ChainTable.Wire.Sizes

/-! All that a server stores from messages that fit a frame can be sent in messages that fit one. -/

namespace ChainTable

/-- A codec that packs each message into as many bytes as its schema asks for. -/
def Codec.Sized (codec : Codec) : Prop :=
  ∀ msg, (codec.pack msg).length = packedSize msg

/-- The tables that a server reaches through PUTs, DELs and merges that fit a frame. -/
inductive WireReachable (codec : Codec) : Table → Prop
  | create {n : Int} {table : Table} {mem mem' : Mem}
    (ran : tableCreate n mem = .ok (some table, mem')) : WireReachable codec table
  /-- A request that `rtable_put` has built. -/
  | put {table after : Table} {key : Option Key} {data : Data} {passed : Option Forward}
    {mem mem' : Mem} (reached : WireReachable codec table)
    (fits : (codec.pack (putRequest key data)).length ≤ maxFrame)
    (ran : updateLocally (putRequest key data) table mem = .ok ((passed, after), mem')) :
    WireReachable codec after
  | del {table after : Table} {msg : MessageT} {passed : Option Forward} {mem mem' : Mem}
    (reached : WireReachable codec table) (isDel : msg.opcode = opDel)
    (ran : updateLocally msg table mem = .ok ((passed, after), mem')) : WireReachable codec after
  /-- A merge with the table that a reply to a GETTABLE carries. -/
  | merge {table after : Table} {reply : MessageT} {mem mem' : Mem}
    (reached : WireReachable codec table) (answers : reply.opcode = opGetTable + 1)
    (carries : reply.cType = ctTable) (fits : (codec.pack reply).length ≤ maxFrame)
    (ran : mergeTable (fun _ => return some reply) table () mem = .ok ((after, ()), mem')) :
    WireReachable codec after

/-- Every pair of a map can be put again by a request that fits a frame. -/
def PairsFit (contents : Contents) : Prop :=
  ∀ key block, contents.lookup key = some block →
    putSize key.bytes.length block.val.length ≤ maxFrame

/-- A pair that fits may be put into a map whose pairs fit. -/
theorem PairsFit.insert {contents : Contents} (fit : PairsFit contents) {key : Key} {block : Block}
    (fits : putSize key.bytes.length block.val.length ≤ maxFrame) :
    PairsFit (contents.insert key block) := by
  -- What is found is the pair put, or one that fitted before.
  intro other stored found
  rw [contents_insert] at found
  split at found
  · rename_i same
    cases found
    rwa [same]
  · exact fit other stored found

/-- A key may be taken out of a map whose pairs fit. -/
theorem PairsFit.erase {contents : Contents} (fit : PairsFit contents) (key : Key) :
    PairsFit (contents.erase key) := by
  -- What is found was found before.
  intro other stored found
  rw [contents_erase] at found
  split at found
  · cases found
  · exact fit other stored found

variable {mem mem' : Mem}

/-- Data that was created holds the first bytes, as many as the size says once it is an `int`. -/
theorem dataCreate_created {size : Int} {bytes : List UInt8} {data : Data}
    (ran : dataCreate size (some bytes) mem = .ok (some data, mem')) :
    0 < int32 size ∧ ∃ block : Block, data = .ofBlock block ∧
      block.val = bytes.take (int32 size).toNat := by
  -- The size has to be positive, and as many bytes have to be there.
  by_cases positive : 0 < int32 size
  · refine ⟨positive, ?_⟩
    by_cases fits : int32 size ≤ bytes.length
    · -- The data is created or not, and here it was.
      obtain ⟨block, taken, attempts⟩ := dataCreate_block positive fits
      obtain ⟨left, gaveUp | created⟩ := attempts.either mem
      · rw [gaveUp] at ran
        cases ran
      · rw [created] at ran
        cases ran
        exact ⟨block, rfl, taken⟩
    · -- With fewer bytes than that, the copy leaves the block.
      simp only [dataCreate, if_neg (show ¬ int32 size ≤ 0 by omega), dif_neg fits] at ran
      obtain ⟨given, left, -, ran⟩ := bind_ran ran
      cases given
      · cases ran
      · obtain ⟨given, left, -, ran⟩ := bind_ran ran
        cases given <;> cases ran
  · simp only [dataCreate, if_pos (show int32 size ≤ 0 by omega)] at ran
    cases ran

/-- Data is only created from bytes. -/
theorem dataCreate_held {size : Int} {bytes : Option (List UInt8)} {data : Data}
    (ran : dataCreate size bytes mem = .ok (some data, mem')) : ∃ held, bytes = some held := by
  -- Without bytes the call returns NULL, whatever the size is.
  cases bytes with
  | some held => exact ⟨held, rfl⟩
  | none =>
    unfold dataCreate at ran
    dsimp only at ran
    split at ran <;> cases ran

/-- A put of a key without a row stores nothing, even where it does not come to look for the row. -/
theorem tablePut_outside_ran {count : Nat} (store : Store count) {key : Key} {value : Option Data}
    {result : Int} {after : Table} (outside : ¬ HashesInside count key)
    (ran : tablePut (.ofStore store) (some key) value mem = .ok ((result, after), mem')) :
    result = -1 ∧ after = .ofStore store := by
  -- A run that came to look for the row would have left the array.
  unfold tablePut at ran
  simp only [ofStore_rows, listAt_outside store outside] at ran
  split at ran
  · cases ran
    exact ⟨rfl, rfl⟩
  obtain ⟨keyCopy, left, -, ran⟩ := bind_ran ran
  split at ran
  · cases ran
    exact ⟨rfl, rfl⟩
  obtain ⟨valueCopy, left, -, ran⟩ := bind_ran ran
  split at ran
  · cases ran
    exact ⟨rfl, rfl⟩
  obtain ⟨created, left, -, ran⟩ := bind_ran ran
  split at ran <;> cases ran
  exact ⟨rfl, rfl⟩

/-- A put that ran stored valid data under its key, or changed nothing. -/
theorem Table.Holds.put_ran_any {table after : Table} {contents : Contents}
    (holds : table.Holds contents) {key : Option Key} {value : Option Data} {result : Int}
    (ran : tablePut table key value mem = .ok ((result, after), mem')) :
    (result = -1 ∧ after.Holds contents) ∨ (result = 0 ∧ ∃ held data block, key = some held ∧
      value = some data ∧ data.contents = some block ∧
      after.Holds (contents.insert held block)) := by
  -- Without a key, or without valid data, the put is refused.
  by_cases refused : key = none ∨ dataValid value = -1
  · rw [tablePut_refused table refused] at ran
    cases ran
    exact .inl ⟨rfl, holds⟩
  · obtain ⟨named, valid⟩ := not_or.mp refused
    obtain ⟨held, rfl⟩ := Option.ne_none_iff_exists'.mp named
    cases value with
    | none => exact absurd rfl valid
    | some data =>
      have filled : data.contents ≠ none := fun missing =>
        valid ((dataValid_eq_neg_one data).mpr missing)
      obtain ⟨block, found⟩ := Option.ne_none_iff_exists'.mp filled
      by_cases inside : table.Inside held
      · -- With a row for the key, the put goes through or runs out of memory.
        obtain ⟨stored, holdsAfter, -, attempts⟩ := holds.put found inside
        obtain ⟨left, gaveUp | wentOn⟩ := attempts.either mem
        · rw [gaveUp] at ran
          cases ran
          exact .inl ⟨rfl, holds⟩
        · rw [wentOn] at ran
          cases ran
          exact .inr ⟨rfl, held, data, block, rfl, rfl, found, holdsAfter⟩
      · -- Without a row it only returns when it stores nothing.
        obtain ⟨count, store, rfl, agree⟩ := holds
        obtain ⟨refused, rfl⟩ := tablePut_outside_ran store inside ran
        exact .inl ⟨refused, count, store, rfl, agree⟩

/-- An entry created from copies is the entry of their pair, or NULL if memory ran out. -/
theorem entryCreate_copies {key : Key} {block : Block} {keyCopy : Option Key}
    {dataCopy : Option Data} {copy : Option Entry} {first second third : Mem}
    (dupKey : strdup key first = .ok (keyCopy, second))
    (dupData : dataDup (some (.ofBlock block)) second = .ok (dataCopy, third))
    (ran : entryCreate keyCopy dataCopy third = .ok (copy, mem)) :
    copy = none ∨ copy = some (.ofPair (key, block)) := by
  -- Each of the three steps makes its copy, or leaves NULL to the next one.
  obtain ⟨left, noKey | gotKey⟩ := (strdup_attempts key).either first
  · rw [noKey] at dupKey
    cases dupKey
    cases ran
    exact .inl rfl
  · rw [gotKey] at dupKey
    cases dupKey
    obtain ⟨left, noData | gotData⟩ :=
      (dataDup_attempts (contents_ofBlock block)).either second
    · rw [noData] at dupData
      cases dupData
      cases ran
      exact .inl rfl
    · rw [gotData] at dupData
      cases dupData
      obtain ⟨left, noEntry | gotEntry⟩ :=
        (entryCreate_attempts key (contents_ofBlock block)).either third
      · rw [noEntry] at ran
        cases ran
        exact .inl rfl
      · rw [gotEntry] at ran
        cases ran
        exact .inr rfl

/-- A put under the lock that ran stored the pair of its entry, or changed nothing. -/
theorem putLocally_ran_any {table after : Table} {contents : Contents}
    (holds : table.Holds contents) {msg : MessageT} {stored : Option (Option Entry)}
    (ran : putLocally msg table mem = .ok ((stored, after), mem')) :
    (stored = none ∧ after.Holds contents) ∨ ∃ received key block copy,
      msg.entry = some received ∧ StoredFrom received key block ∧ stored = some copy ∧
      (copy = none ∨ copy = some (.ofPair (key, block))) ∧
      after.Holds (contents.insert key block) := by
  -- A request without an entry, a key or a value is refused at once.
  unfold putLocally at ran
  cases sent : msg.entry with
  | none =>
    rw [sent] at ran
    cases ran
    exact .inl ⟨rfl, holds⟩
  | some received =>
    cases named : received.key with
    | none =>
      simp only [sent, named] at ran
      cases ran
      exact .inl ⟨rfl, holds⟩
    | some key =>
      cases held : received.value.data with
      | none =>
        simp only [sent, named, held] at ran
        cases ran
        exact .inl ⟨rfl, holds⟩
      | some bytes =>
        simp only [sent, named, held] at ran
        obtain ⟨data, second, created, ran⟩ := bind_ran ran
        obtain ⟨⟨result, next⟩, third, put, ran⟩ := bind_ran ran
        obtain ⟨rfl, kept⟩ | ⟨rfl, other, stores, block, sameKey, sameData, found, inserted⟩ :=
          holds.put_ran_any put
        · cases ran
          exact .inl ⟨rfl, kept⟩
        · -- The put went through, so the data was created from the bytes of the request.
          cases sameKey
          subst sameData
          obtain ⟨positive, block', rfl, taken⟩ := dataCreate_created created
          rw [contents_ofBlock] at found
          cases found
          obtain ⟨keyCopy, fourth, dupKey, ran⟩ := bind_ran ran
          obtain ⟨dataCopy, fifth, dupData, ran⟩ := bind_ran ran
          obtain ⟨copy, sixth, copied, ran⟩ := bind_ran ran
          cases ran
          exact .inr ⟨received, key, block, copy, rfl, ⟨named, bytes, held, positive, taken⟩, rfl,
            entryCreate_copies dupKey dupData copied, inserted⟩

/-- The entries that `rtable_get_table` copies from a response are made of received entries. -/
theorem copyEntries_ran (count : Nat) {entries : List (Option EntryT)}
    {copies : List (Option Entry)} (ran : copyEntries count entries mem = .ok (some copies, mem')) :
    ∀ copy, some copy ∈ copies → ∃ received key block,
      some received ∈ entries.take count ∧ StoredFrom received key block ∧
      copy = .ofPair (key, block) := by
  -- The loop returns an array only if each of its rounds went through.
  induction count generalizing entries copies mem with
  | zero =>
    cases ran
    intro copy member
    simp at member
  | succ count ih =>
    match entries with
    | [] => cases ran
    | none :: _ => cases ran
    | some received :: entries =>
      unfold copyEntries at ran
      obtain ⟨given, second, -, ran⟩ := bind_ran ran
      cases given with
      | false => cases ran
      | true =>
        cases named : received.key with
        | none =>
          simp only [named] at ran
          cases ran
        | some key =>
          simp only [named] at ran
          obtain ⟨given, third, -, ran⟩ := bind_ran ran
          cases given with
          | false => cases ran
          | true =>
            obtain ⟨value, fourth, created, ran⟩ := bind_ran ran
            cases value with
            | none => cases ran
            | some data =>
              obtain ⟨others, fifth, copied, ran⟩ := bind_ran ran
              cases others with
              | none => cases ran
              | some others =>
                cases ran
                obtain ⟨bytes, held⟩ := dataCreate_held created
                rw [held] at created
                obtain ⟨positive, block, rfl, taken⟩ := dataCreate_created created
                intro copy member
                -- The copy is the one made in this round, or one of a later round.
                rcases List.mem_cons.mp member with same | later
                · cases same
                  exact ⟨received, key, block, by simp, ⟨named, bytes, held, positive, taken⟩, rfl⟩
                · obtain ⟨other, key', block', among, made, same⟩ := ih copied copy later
                  exact ⟨other, key', block', by simp [among], made, same⟩

/-- The loop of the merge keeps all pairs small when those that it puts are small. -/
theorem mergeLoop_fit {entries : List (Option Entry)}
    (small : ∀ entry, some entry ∈ entries → ∃ (key : Key) (block : Block),
      entry = .ofPair (key, block) ∧ putSize key.bytes.length block.val.length ≤ maxFrame)
    {table after : Table} {contents : Contents} (holds : table.Holds contents)
    (fit : PairsFit contents) (ran : mergeLoop table entries mem = .ok (after, mem')) :
    ∃ merged, after.Holds merged ∧ PairsFit merged := by
  -- Every put stores one of the small pairs, or fails and changes nothing.
  induction entries generalizing table contents mem with
  | nil => cases ran
  | cons entry entries ih =>
    cases entry with
    | none =>
      cases ran
      exact ⟨contents, holds, fit⟩
    | some entry =>
      obtain ⟨key, block, rfl, fits⟩ := small entry List.mem_cons_self
      have later := fun entry member => small entry (List.mem_cons_of_mem _ member)
      obtain ⟨⟨result, next⟩, second, put, rest⟩ := bind_ran ran
      obtain ⟨-, kept⟩ | ⟨-, held, data, stored, sameKey, sameData, found, inserted⟩ :=
        holds.put_ran_any put
      · exact ih later kept fit rest
      · -- The entry holds the pair that was stored.
        cases sameKey
        cases sameData
        rw [contents_ofBlock] at found
        cases found
        exact ih later inserted (fit.insert fits) rest

/-- Every table that is reached over the wire holds pairs that fit. -/
theorem WireReachable.pairsFit {codec : Codec} (sized : codec.Sized) {table : Table}
    (reached : WireReachable codec table) :
    ∃ contents, table.Holds contents ∧ PairsFit contents := by
  -- Each way to reach a table stores pairs that came in a message that fits.
  induction reached with
  | @create n table mem mem' ran =>
    by_cases positive : 0 < n
    · obtain ⟨count, rfl⟩ := Int.eq_ofNat_of_zero_le positive.le
      obtain ⟨created, holds, -, attempts⟩ := Table.Holds.create (Int.natCast_pos.mp positive)
      obtain ⟨left, gaveUp | went⟩ := attempts.either mem
      · rw [gaveUp] at ran
        cases ran
      · rw [went] at ran
        cases ran
        exact ⟨∅, holds, fun key block found => by simp at found⟩
    · rw [tableCreate, dif_pos (by omega)] at ran
      cases ran
  | @put table after key data passed mem mem' _ fits ran ih =>
    obtain ⟨contents, holds, fit⟩ := ih
    obtain ⟨stored, put, -⟩ := updateLocally_put rfl ran
    obtain ⟨-, kept⟩ | ⟨received, held, block, copy, sent, made, -, -, inserted⟩ :=
      putLocally_ran_any holds put
    · exact ⟨contents, kept, fit⟩
    · -- The pair is no larger than the entry of the request.
      have size := made.putSize_le
      cases sent
      rw [sized, packedSize_put] at fits
      exact ⟨_, inserted, fit.insert (size.trans fits)⟩
  | @del table after msg passed mem mem' _ isDel ran ih =>
    obtain ⟨contents, holds, fit⟩ := ih
    obtain ⟨-, -, rfl, -⟩ | ⟨key, removed, -, del, -⟩ := updateLocally_del isDel ran
    · exact ⟨contents, holds, fit⟩
    · exact ⟨_, (delLocally_ran holds del).2.2, fit.erase key⟩
  | @merge table after reply mem mem' _ answers carries fits ran ih =>
    obtain ⟨contents, holds, fit⟩ := ih
    obtain ⟨entries, state, second, fetched, rest⟩ := runOver_bind_ran ran
    cases entries with
    | none =>
      cases rest
      exact ⟨contents, holds, fit⟩
    | some entries =>
      obtain ⟨merged, third, loop, same⟩ := runOver_lift_ran rest
      cases same
      refine mergeLoop_fit (fun entry member => ?_) holds fit loop
      -- Each entry is made of one that the reply carries.
      unfold rtableGetTable at fetched
      obtain ⟨_, _, fourth, -, fetched⟩ := runOver_bind_ran fetched
      obtain ⟨response, _, fifth, exchanged, fetched⟩ := runOver_bind_ran fetched
      cases exchanged
      rw [if_neg (by rw [answers]; decide)] at fetched
      obtain ⟨_, _, sixth, -, fetched⟩ := runOver_bind_ran fetched
      obtain ⟨copies, seventh, copied, same⟩ := runOver_lift_ran fetched
      cases same
      obtain ⟨received, key, block, among, made, same⟩ := copyEntries_ran _ copied entry member
      exact ⟨key, block, same,
        made.putSize_le.trans
          ((packedSize_getTableReply answers carries among).trans (sized reply ▸ fits))⟩

/-- The request to put a block takes the bytes of its key and of the block. -/
theorem packedSize_putRequest (key : Key) (block : Block) :
    packedSize (putRequest (some key) (.ofBlock block)) =
      putSize key.bytes.length block.val.length := by
  -- The value of the request has as many bytes as its length says.
  have filled : block.val.length ≠ 0 := (List.length_pos_iff.mpr block.property.1).ne'
  let entry : EntryT :=
    { key := some key, value := { len := sizeT (Data.ofBlock block).datasize,
                                  data := (Data.ofBlock block).data } }
  have len : entry.value.len = block.val.length := sizeT_natCast _
  have bytes : entry.value.bytes = block.val := by
    rw [BinaryData.bytes, len]
    exact List.take_length
  have packed := entryPack_length (show entry.value.len ≠ 0 by rw [len]; exact filled)
    (by rw [bytes]; exact filled)
  rw [bytes] at packed
  rw [packedSize_put, packBytes_length]
  change 4 + (1 + ((varint (entryPack entry).length).length + (entryPack entry).length)) = _
  rw [packed]
  simp only [putSize, Nat.add_assoc]
  rfl

variable {σ : Type} {nextServer : Option (Successor σ)} {state : σ}

/--
All that could be stored over the wire can be read back and put again in messages that fit a frame.

The last part is about the request by which a server forwards a PUT that it has just stored. All of
this is for any codec that packs messages into as many bytes as their schema asks for.
-/
theorem stored_fits_frame {codec : Codec} (sized : codec.Sized) {server : Server}
    (reached : WireReachable codec server.table) :
    (∀ key data, tableGet server.table (some key) [] = .ok (some data, []) →
      (codec.pack (putRequest (some key) data)).length ≤ maxFrame ∧
      ∃ served reply, invoke nextServer (some (getRequest (some key))) server state [] =
          .ok (((0, reply, served), state), []) ∧
        reply.opcode = opGet + 1 ∧ reply.key = some key ∧
        reply.value = ⟨sizeT data.datasize, data.data⟩ ∧ (codec.pack reply).length ≤ maxFrame) ∧
    ∀ key data mem mem' after forward request,
      (codec.pack (putRequest key data)).length ≤ maxFrame →
      updateLocally (putRequest key data) server.table mem = .ok ((some forward, after), mem') →
      Forwarding.forwardRequest forward = some request →
        (codec.pack request).length ≤ maxFrame := by
  -- The table holds pairs that fit, and all messages are made of such pairs.
  obtain ⟨contents, holds, fit⟩ := reached.pairsFit sized
  simp only [sized _]
  constructor
  · intro key data stored
    have answer := holds.get_ran stored
    cases found : contents.lookup key with
    | none =>
      rw [found] at answer
      -- What is not in the map is not answered with data.
      cases answer
    | some block =>
      rw [found] at answer
      cases answer
      have fits := fit key block found
      have filled : block.val.length ≠ 0 := (List.length_pos_iff.mpr block.property.1).ne'
      refine ⟨by rwa [packedSize_putRequest], ?_⟩
      let value : BinaryData := ⟨sizeT (Data.ofBlock block).datasize, (Data.ofBlock block).data⟩
      let reply : MessageT := { getRequest (some key) with
        opcode := opGet + 1, cType := ctValue, value := value }
      refine ⟨server.counted, reply, ?_, rfl, rfl, rfl, ?_⟩
      · -- The skeleton answers in the message that held the request.
        have sameTable := gettimeofday_table server
        rw [invoke_opGet (show (getRequest (some key)).opcode = opGet from rfl)]
        simp only [invokeGet, sameTable, getRequest]
        rw [runOver_bind (runOver_lift stored)]
        rfl
      · have len : value.len = block.val.length := sizeT_natCast _
        have bytes : value.bytes = block.val := by
          rw [BinaryData.bytes, len]
          exact List.take_length
        have size : packedSize reply = 4 + entrySize key.bytes.length value.bytes.length :=
          packedSize_getReply key (by rw [len]; exact filled) (by rw [bytes]; exact filled)
        rw [size, bytes]
        simp only [putSize] at fits
        omega
  · intro key data mem mem' after forward request fits ran forwarded
    obtain ⟨stored, put, passed⟩ := updateLocally_put rfl ran
    obtain ⟨rfl, -⟩ | ⟨received, held, block, copy, sent, made, rfl, copied, -⟩ :=
      putLocally_ran_any holds put
    · cases passed
    · cases passed
      rcases copied with rfl | rfl
      · cases forwarded
      · -- The pair that is passed on is no larger than the entry of the request.
        cases forwarded
        have size := made.putSize_le
        cases sent
        rw [packedSize_put] at fits
        rw [packedSize_putRequest]
        exact size.trans fits

/-- A value of 200 bytes that was put over the wire is read back in a message that fits. -/
theorem stored_fits_frame_put :
    let codec : Codec := ⟨messagePack, fun _ => none⟩
    let key : Key := ⟨[107], by decide⟩
    let block : Block := ⟨List.replicate 200 1, by decide +kernel⟩
    let server : Server := ⟨⟨1, 1, [⟨1, [.ofPair (key, block)]⟩], rfl⟩, ⟨0, 0, 0⟩, []⟩
    ∃ served reply, invoke (none : Option (Successor Unit)) (some (getRequest (some key))) server ()
        [] = .ok (((0, reply, served), ()), []) ∧
      reply.value = ⟨200, some block.val⟩ ∧ (codec.pack reply).length ≤ maxFrame := by
  intro codec key block server
  have sized : codec.Sized := fun _ => rfl
  have created : tableCreate 1 [] = .ok (some ⟨0, 1, [⟨0, []⟩], rfl⟩, []) := rfl
  have put : updateLocally (putRequest (some key) (.ofBlock block)) ⟨0, 1, [⟨0, []⟩], rfl⟩ [] =
      .ok ((some (.put (some (.ofPair (key, block)))), server.table), []) := by decide +kernel
  have fits : (codec.pack (putRequest (some key) (.ofBlock block))).length ≤ maxFrame := by
    decide +kernel
  have stored : tableGet server.table (some key) [] = .ok (some (.ofBlock block), []) := by
    decide +kernel
  obtain ⟨-, served, reply, ran, -, -, value, small⟩ :=
    (stored_fits_frame sized (.put (.create created) fits put)).1 key (.ofBlock block) stored
  have size : sizeT (Data.ofBlock block).datasize = 200 := by decide +kernel
  rw [size] at value
  exact ⟨served, reply, ran, value, small⟩

end ChainTable
