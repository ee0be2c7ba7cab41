import EntityStore.Construction
import EntityStore.Hierarchy.Edit
import EntityStore.Hierarchy.Examine
import EntityStore.Hierarchy.Visit
import EntityStore.Proofs.ForestRefinement
import EntityStore.Proofs.Issuing
import EntityStore.Proofs.Refinement
import EntityStore.Proofs.Runs
import EntityStore.Sequence.Machine
import EntityStore.Store.Context
import EntityStore.Whitelist
import EntityStore.Proofs.PoolRefinement
import EntityStore.Proofs.SelectionOrder
import EntityStore.Proofs.Agreement
import EntityStore.Proofs.Locality
import EntityStore.Proofs.Editing
import EntityStore.Proofs.Noninterference
import EntityStore.Proofs.Roaming
import EntityStore.Proofs.Affinity
import EntityStore.Proofs.Programs
import EntityStore.Proofs.Refusals
import EntityStore.Proofs.ConstructionCycle
import EntityStore.Proofs.Shifts
import EntityStore.Proofs.Working
import EntityStore.Proofs.Custody
import EntityStore.Proofs.Tokens
import EntityStore.Proofs.Examination
import EntityStore.Proofs.Prepending
import EntityStore.Proofs.Renaming
import EntityStore.Proofs.Stalling
import EntityStore.Proofs.Pruning
import EntityStore.Proofs.Visiting
import EntityStore.Proofs.Tending
import EntityStore.Proofs.Ancestry
import EntityStore.Proofs.Consistency
import EntityStore.Proofs.Restoring
import EntityStore.Proofs.Removing
import EntityStore.Proofs.Severing
import EntityStore.Proofs.Inventories
import EntityStore.Proofs.Staleness
import EntityStore.Proofs.Sweeping
import EntityStore.Proofs.Recycling
import EntityStore.Proofs.Errands
import EntityStore.Proofs.Nesting
import EntityStore.Proofs.Resetting
import EntityStore.Proofs.Waiting
import EntityStore.Proofs.Handles
import EntityStore.Proofs.Bookkeeping
import EntityStore.Proofs.Layout
import EntityStore.Proofs.Settings
