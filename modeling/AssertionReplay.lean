import AssertionReplay.Main
import AssertionReplay.Backtest
import AssertionReplay.Payload.Reader
import AssertionReplay.Proofs.Agreement
import AssertionReplay.Proofs.Survival
import AssertionReplay.Proofs.Lowercase
import AssertionReplay.Proofs.Checksum
import AssertionReplay.Proofs.Framing
import AssertionReplay.Proofs.Numeral
import AssertionReplay.Proofs.JsonText
import AssertionReplay.Proofs.Fields
import AssertionReplay.Proofs.Forms
import AssertionReplay.Proofs.Channel
import AssertionReplay.Proofs.HostCalls
import AssertionReplay.Proofs.Protocol
import AssertionReplay.Proofs.Revert
import AssertionReplay.Proofs.Tally
import AssertionReplay.Proofs.Containment
import AssertionReplay.Proofs.Provenance
import AssertionReplay.Proofs.Emitted
import AssertionReplay.Proofs.Accounting
import AssertionReplay.Proofs.Determinacy
import AssertionReplay.Proofs.Partition
import AssertionReplay.Proofs.TraceAdditions
import AssertionReplay.Proofs.DirectCalls
import AssertionReplay.Proofs.Distinct
import AssertionReplay.Proofs.Placement
import AssertionReplay.Proofs.Refusal
import AssertionReplay.Proofs.Transport
import AssertionReplay.Proofs.Probing
import AssertionReplay.Proofs.Unseen
import AssertionReplay.Proofs.InStep
import AssertionReplay.Proofs.Mirrors
import AssertionReplay.Proofs.AcceptedConfig
import AssertionReplay.Proofs.Truthful
import AssertionReplay.Proofs.Pipelines
import AssertionReplay.Proofs.Degraded
import AssertionReplay.Proofs.CallFaults
import AssertionReplay.Proofs.Reprinting
import AssertionReplay.Proofs.FirstSeen
import AssertionReplay.Proofs.Unforged
import AssertionReplay.Proofs.Selection
import AssertionReplay.Proofs.Isolation
import AssertionReplay.Proofs.JournalGrowth
import AssertionReplay.Proofs.FetchCalls
import AssertionReplay.Proofs.Tiling
import AssertionReplay.Proofs.Rows
import AssertionReplay.Proofs.Layouts
import AssertionReplay.Proofs.Truncation
import AssertionReplay.Proofs.Spellings
import AssertionReplay.Proofs.Encoding
import AssertionReplay.Proofs.Reasons
import AssertionReplay.Proofs.Judgement
import AssertionReplay.Proofs.Answers
import AssertionReplay.Proofs.Observation
import AssertionReplay.Proofs.Summaries
import AssertionReplay.Proofs.Affordable
import AssertionReplay.Proofs.Escapes
import AssertionReplay.Proofs.Intended
import AssertionReplay.Proofs.CapabilityChoice
import AssertionReplay.Proofs.NormalForm
import AssertionReplay.Proofs.Search
import AssertionReplay.Proofs.Sampling
import AssertionReplay.Proofs.Positions
