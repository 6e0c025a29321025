/-
Module: AnotherWs.Core.SizedRead
Purpose: read_char_from_buf_or_data with every sum and difference of its size_t counters checked,
  and the calls of a parse one after the other.
Trusted boundary: none beyond the buffer
Main exports: SizeFault, sizeAddChecked, sizeSubChecked, sizedRead, readCalls
-/
import AnotherWs.Core.Protocol

namespace AnotherWs

/-- A counter that wraps around, or what can go wrong with the buffer. -/
inductive SizeFault where
  | wraps
  | fault (fault : Fault)
deriving DecidableEq, Repr

/-- `a + b` over `size_t` -/
def sizeAddChecked (a b : Nat) : Except SizeFault Nat :=
  if a + b < 2 ^ 64 then .ok (a + b) else .error .wraps

/-- `a - b` over `size_t` -/
def sizeSubChecked (a b : Nat) : Except SizeFault Nat :=
  if b ≤ a then .ok (a - b) else .error .wraps

/-- `membuf_append_data` among checked steps. -/
def appendChecked (buf : Membuf) (bytes : Bytes) : Except SizeFault Membuf :=
  (membufAppendData buf bytes).mapError .fault

/-- `read_char_from_buf_or_data` -/
def sizedRead (cursor : ReadCursor) (data : Bytes) (readlen : Nat) :
    Except SizeFault ReadResult := do
  let { buf, bufRead, dataRead, realReadNum } := cursor
  let bufStop ← sizeAddChecked bufRead readlen
  if bufStop ≤ buf.size then
    .ok
      { ret := true
        stored := (buf.content.drop bufRead).take readlen
        cursor := { cursor with bufRead := bufStop } }
  else do
    let bufAvailable ← sizeSubChecked buf.size bufRead
    let fromBuf := (buf.content.drop bufRead).take bufAvailable
    let bufRead ← sizeAddChecked bufRead bufAvailable
    let wanted ← sizeAddChecked dataRead readlen
    let dataStop ← sizeSubChecked wanted bufAvailable
    if dataStop ≤ data.length then do
      let rest ← sizeSubChecked readlen bufAvailable
      let fromData := (data.drop dataRead).take rest
      let buf ← appendChecked buf fromData
      let dataRead ← sizeAddChecked dataRead rest
      let bufRead ← sizeAddChecked bufRead rest
      let realReadNum ← sizeAddChecked realReadNum rest
      .ok
        { ret := true
          stored := fromBuf ++ fromData
          cursor :=
            { buf := buf, bufRead := bufRead, dataRead := dataRead, realReadNum := realReadNum } }
    else do
      let dataAvailable ← sizeSubChecked data.length dataRead
      if 0 < dataAvailable then do
        let fromData := (data.drop dataRead).take dataAvailable
        let buf ← appendChecked buf fromData
        let dataRead ← sizeAddChecked dataRead dataAvailable
        let bufRead ← sizeAddChecked bufRead dataAvailable
        let realReadNum ← sizeAddChecked realReadNum dataAvailable
        .ok
          { ret := false
            stored := fromBuf ++ fromData
            cursor :=
              { buf := buf, bufRead := bufRead, dataRead := dataRead, realReadNum := realReadNum } }
      else
        .ok { ret := false, stored := fromBuf, cursor := { cursor with bufRead := bufRead } }

/-- Calls with these lengths one after the other, up to the first that returns 0. -/
def readCalls (data : Bytes) : ReadCursor → List Nat → Except SizeFault (List ReadResult)
  | _, [] => .ok []
  | cursor, readlen :: rest => do
      let read ← sizedRead cursor data readlen
      if read.ret then do
        let reads ← readCalls data read.cursor rest
        .ok (read :: reads)
      else .ok [read]

end AnotherWs
